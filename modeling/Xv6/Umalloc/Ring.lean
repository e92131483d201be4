import Xv6.Umalloc.Basic

/-!
# The circular list of free blocks

The free list as the list of its blocks in the order of their addresses, after `base`. The loop of
`free` finds the place of a block in this list from wherever `freep` points to, and the block is
linked there or joined to its neighbours.
-/

namespace Xv6.Umalloc

open Core Coroutine

/-- A block: the address of its header, and its size in headers. -/
structure Block where
  addr : ℕ
  size : ℕ
  deriving DecidableEq, Repr

/-- The end of a block. -/
def Block.stop (b : Block) : ℕ := b.addr + b.size * HEADER

lemma HEADER_eq : HEADER = 16 := rfl

/-! ### Headers -/

/-- Headers at the two addresses do not overlap. -/
def Far (p q : ℕ) : Prop := p + HEADER ≤ q ∨ q + HEADER ≤ p

lemma Far.symm {p q : ℕ} (h : Far p q) : Far q p := Or.symm h

section Headers

variable {s : State} {p q v n : ℕ}

lemma ptr_lt (s : State) (p : ℕ) : s.ptr p < 2 ^ 64 := Bytes.read_lt _ _ _

lemma ptr_setPtr_self (hv : v < 2 ^ 64) : (s.setPtr p v).ptr p = v := by
  rw [State.ptr, State.setPtr, Bytes.read_write_self, Nat.mod_eq_of_lt (show v < 256 ^ 8 from hv)]

lemma ptr_setPtr_of_far (h : Far q p) : (s.setPtr p v).ptr q = s.ptr q := by
  apply Bytes.read_write_of_disjoint
  rw [Far, HEADER_eq] at h
  omega

@[simp]
lemma size_setPtr_self : (s.setPtr p v).size p = s.size p :=
  Bytes.read_write_of_disjoint (.inr le_rfl)

lemma size_setPtr_of_far (h : Far q p) : (s.setPtr p v).size q = s.size q := by
  apply Bytes.read_write_of_disjoint
  rw [Far, HEADER_eq] at h
  omega

lemma size_setSize_self (hn : n < 2 ^ 32) : (s.setSize p n).size p = n := by
  rw [State.size, State.setSize, Bytes.read_write_self, Nat.mod_eq_of_lt (show n < 256 ^ 4 from hn)]

lemma size_setSize_of_far (h : Far q p) : (s.setSize p n).size q = s.size q := by
  apply Bytes.read_write_of_disjoint
  rw [Far, HEADER_eq] at h
  omega

@[simp]
lemma ptr_setSize_self : (s.setSize p n).ptr p = s.ptr p :=
  Bytes.read_write_of_disjoint (.inl le_rfl)

lemma ptr_setSize_of_far (h : Far q p) : (s.setSize p n).ptr q = s.ptr q := by
  apply Bytes.read_write_of_disjoint
  rw [Far, HEADER_eq] at h
  omega

end Headers

/-! ### Paths -/

/-- The pointer `a` leads through the blocks of a list to `z`. -/
def Path (s : State) : ℕ → List Block → ℕ → Prop
  | a, [], z => a = z
  | a, b :: l, z => a = b.addr ∧ s.size a = b.size ∧ Path s (s.ptr a) l z

/-- The last header on the way from `p` through the blocks of a list. -/
def last (p : ℕ) : List Block → ℕ
  | [] => p
  | b :: l => last b.addr l

lemma last_append (p : ℕ) (l₁ l₂ : List Block) : last p (l₁ ++ l₂) = last (last p l₁) l₂ := by
  induction l₁ generalizing p with
  | nil => rfl
  | cons b l₁ ih => exact ih b.addr

lemma last_eq_or_mem (p : ℕ) (l : List Block) : last p l = p ∨ ∃ b ∈ l, last p l = b.addr := by
  induction l generalizing p with
  | nil => exact .inl rfl
  | cons b l ih =>
    right
    rcases ih b.addr with h | ⟨c, hc, h⟩
    · exact ⟨b, List.mem_cons_self .., h⟩
    · exact ⟨c, List.mem_cons_of_mem _ hc, h⟩

/-- What holds of the first header and of all blocks holds of the last one. -/
lemma last_of_forall {P : ℕ → Prop} {p : ℕ} {l : List Block} (hp : P p) (hl : ∀ b ∈ l, P b.addr) :
    P (last p l) := by
  rcases last_eq_or_mem p l with h | ⟨b, hb, h⟩
  · rwa [h]
  · rw [h]
    exact hl b hb

namespace Path

variable {s s' : State} {a z p : ℕ} {l l₁ l₂ : List Block}

lemma append : Path s a (l₁ ++ l₂) z ↔ ∃ m, Path s a l₁ m ∧ Path s m l₂ z := by
  induction l₁ generalizing a with
  | nil =>
    constructor
    · exact fun h => ⟨a, rfl, h⟩
    · rintro ⟨_, rfl, h⟩
      exact h
  | cons b l₁ ih =>
    constructor
    · rintro ⟨ha, hsize, h⟩
      obtain ⟨m, h₁, h₂⟩ := ih.mp h
      exact ⟨m, ⟨ha, hsize, h₁⟩, h₂⟩
    · rintro ⟨m, ⟨ha, hsize, h₁⟩, h₂⟩
      exact ⟨ha, hsize, ih.mpr ⟨m, h₁, h₂⟩⟩

/-- A path depends on the headers of its blocks. -/
lemma congr (h : Path s a l z)
    (hs : ∀ b ∈ l, s'.ptr b.addr = s.ptr b.addr ∧ s'.size b.addr = s.size b.addr) :
    Path s' a l z := by
  induction l generalizing a with
  | nil => exact h
  | cons b l ih =>
    obtain ⟨rfl, hsize, hrest⟩ := h
    obtain ⟨hptr, hsize'⟩ := hs b (List.mem_cons_self ..)
    refine ⟨rfl, hsize'.trans hsize, ?_⟩
    rw [hptr]
    exact ih hrest fun c hc => hs c (List.mem_cons_of_mem b hc)

/-- Where the last header points to. -/
lemma ptr_last (h : Path s (s.ptr p) l z) : s.ptr (last p l) = z := by
  induction l generalizing p with
  | nil => exact h
  | cons b l ih =>
    obtain ⟨hp, -, hrest⟩ := h
    rw [hp] at hrest
    exact ih hrest

lemma size_of_mem (h : Path s a l z) {b : Block} (hb : b ∈ l) : s.size b.addr = b.size := by
  induction l generalizing a with
  | nil => simp at hb
  | cons c l ih =>
    obtain ⟨rfl, hsize, hrest⟩ := h
    rcases List.mem_cons.mp hb with rfl | hb
    · exact hsize
    · exact ih hrest hb

/-- The last header is made to point elsewhere. -/
lemma setPtr_last {v : ℕ} (hv : v < 2 ^ 64) (h : Path s (s.ptr p) l z)
    (hfar : (p :: l.map Block.addr).Pairwise Far) :
    Path (s.setPtr (last p l) v) ((s.setPtr (last p l) v).ptr p) l v := by
  induction l generalizing p with
  | nil => exact ptr_setPtr_self hv
  | cons b l ih =>
    obtain ⟨hp, hsize, hrest⟩ := h
    rw [hp] at hrest hsize
    obtain ⟨hfar₀, hfar₁⟩ := List.pairwise_cons.mp hfar
    have hlast : Far p (last b.addr l) := by
      apply last_of_forall (hfar₀ _ (List.mem_cons_self ..))
      intro c hc
      exact hfar₀ _ (List.mem_cons_of_mem _ (List.mem_map_of_mem hc))
    have hsize' : (s.setPtr (last b.addr l) v).size b.addr = b.size := by
      rcases last_eq_or_mem b.addr l with heq | ⟨c, hc, heq⟩
      · rw [heq, size_setPtr_self, hsize]
      · rw [heq, size_setPtr_of_far, hsize]
        exact (List.pairwise_cons.mp hfar₁).1 _ (List.mem_map_of_mem hc)
    rw [show last p (b :: l) = last b.addr l from rfl, ptr_setPtr_of_far hlast, hp]
    exact ⟨rfl, hsize', ih hrest hfar₁⟩

end Path

/-! ### The order of the blocks -/

/-- The blocks lie in the order of the list from `lo` on, not empty and with a gap between them. -/
structure Sorted (lo : ℕ) (l : List Block) : Prop where
  gap : l.Pairwise fun a b => a.stop < b.addr
  le : ∀ b ∈ l, lo ≤ b.addr
  pos : ∀ b ∈ l, 0 < b.size

lemma Block.addr_lt_stop {b : Block} (h : 0 < b.size) : b.addr + HEADER ≤ b.stop := by
  rw [Block.stop, HEADER_eq]
  omega

namespace Sorted

variable {lo hi : ℕ} {l l₁ l₂ : List Block} {b : Block}

lemma append (h : Sorted lo (l₁ ++ l₂)) :
    Sorted lo l₁ ∧ Sorted lo l₂ ∧ ∀ a ∈ l₁, ∀ b ∈ l₂, a.stop < b.addr := by
  obtain ⟨h₁, h₂, h₁₂⟩ := List.pairwise_append.mp h.gap
  refine ⟨⟨h₁, ?_, ?_⟩, ⟨h₂, ?_, ?_⟩, h₁₂⟩
  · exact fun b hb => h.le b (List.mem_append_left _ hb)
  · exact fun b hb => h.pos b (List.mem_append_left _ hb)
  · exact fun b hb => h.le b (List.mem_append_right _ hb)
  · exact fun b hb => h.pos b (List.mem_append_right _ hb)

lemma of_append (h₁ : Sorted lo l₁) (h₂ : Sorted lo l₂)
    (h₁₂ : ∀ a ∈ l₁, ∀ b ∈ l₂, a.stop < b.addr) : Sorted lo (l₁ ++ l₂) where
  gap := List.pairwise_append.mpr ⟨h₁.gap, h₂.gap, h₁₂⟩
  le b hb := (List.mem_append.mp hb).elim (h₁.le b) (h₂.le b)
  pos b hb := (List.mem_append.mp hb).elim (h₁.pos b) (h₂.pos b)

lemma tail (h : Sorted lo (b :: l)) : Sorted lo l :=
  (show Sorted lo ([b] ++ l) from h).append.2.1

lemma head_stop_lt (h : Sorted lo (b :: l)) {c : Block} (hc : c ∈ l) : b.stop < c.addr :=
  (List.pairwise_cons.mp h.gap).1 c hc

lemma cons (h : Sorted lo l) (hle : lo ≤ b.addr) (hpos : 0 < b.size)
    (hlt : ∀ c ∈ l, b.stop < c.addr) : Sorted lo (b :: l) where
  gap := List.pairwise_cons.mpr ⟨hlt, h.gap⟩
  le := List.forall_mem_cons.mpr ⟨hle, h.le⟩
  pos := List.forall_mem_cons.mpr ⟨hpos, h.pos⟩

/-- Headers of different blocks, and of `base`, do not overlap. -/
lemma pairwise_far {base : ℕ} (h : Sorted (base + HEADER) l) :
    (base :: l.map Block.addr).Pairwise Far := by
  refine List.pairwise_cons.mpr ⟨?_, ?_⟩
  · intro q hq
    obtain ⟨b, hb, rfl⟩ := List.mem_map.mp hq
    exact .inl (h.le b hb)
  · rw [List.pairwise_map]
    refine h.gap.imp_of_mem fun {a b} ha _ hab => ?_
    have := Block.addr_lt_stop (h.pos a ha)
    exact .inl (by omega)

/-- The last header before a block lies below it. -/
lemma last_lt {base : ℕ} (h : Sorted (base + HEADER) (l₁ ++ b :: l₂)) : last base l₁ < b.addr := by
  obtain ⟨h₁, h₂, h₁₂⟩ := h.append
  apply last_of_forall (P := (· < b.addr))
  · have := h₂.le b (List.mem_cons_self ..)
    rw [HEADER_eq] at this
    omega
  · intro c hc
    have := Block.addr_lt_stop (h₁.pos c hc)
    have := h₁₂ c hc b (List.mem_cons_self ..)
    omega

/-- There are not many blocks. -/
lemma length_le (h : Sorted lo l) (hhi : ∀ b ∈ l, b.stop ≤ hi) (hle : lo ≤ hi) :
    lo + HEADER * l.length ≤ hi := by
  induction l generalizing lo with
  | nil => simpa using hle
  | cons b l ih =>
    have hlo := h.le b (List.mem_cons_self ..)
    have hstop := Block.addr_lt_stop (h.pos b (List.mem_cons_self ..))
    have hrest : Sorted b.stop l :=
      ⟨h.tail.gap, fun c hc => (h.head_stop_lt hc).le, h.tail.pos⟩
    have := ih hrest (fun c hc => hhi c (List.mem_cons_of_mem b hc))
      (hhi b (List.mem_cons_self ..))
    rw [List.length_cons, Nat.mul_succ]
    omega

end Sorted

/-- The free list: `base`, with size 0, and the blocks `fl`, in a circle. -/
structure Ring (base : ℕ) (fl : List Block) (s : State) : Prop where
  base_size : s.size base = 0
  path : Path s (s.ptr base) fl base

lemma Ring.of_mem_eq {base : ℕ} {fl : List Block} {s s' : State} (h : Ring base fl s)
    (hs : s'.mem = s.mem) : Ring base fl s' := by
  have hptr : ∀ q, s'.ptr q = s.ptr q := fun q => by rw [State.ptr, hs, ← State.ptr]
  have hsize : ∀ q, s'.size q = s.size q := fun q => by rw [State.size, hs, ← State.size]
  refine ⟨(hsize base).trans h.base_size, ?_⟩
  rw [hptr]
  exact h.path.congr fun b _ => ⟨hptr b.addr, hsize b.addr⟩

/-! ### The place of a block -/

section FindPlace

variable {base bp fuel : ℕ} {fl l₁ l₂ : List Block} {s : State} {F : Halt → Prop}
  {Q : ℕ → State → Prop}

/-- The loop of `free` from a header below the block. -/
lemma wp_findPlace_forward (hring : Ring base (l₁ ++ l₂) s)
    (hsorted : Sorted (base + HEADER) (l₁ ++ l₂)) (hbase : base < bp)
    (hne : ∀ b ∈ l₁ ++ l₂, b.addr ≠ bp) (hlow : ∀ b ∈ l₁, b.addr < bp)
    (hfuel : l₂.length < fuel)
    (hQ : ∀ k₁ k₂, l₁ ++ l₂ = k₁ ++ k₂ → (∀ b ∈ k₁, b.addr < bp) → (∀ b ∈ k₂, bp < b.addr) →
      Q (last base k₁) s) :
    wp F (findPlace bp fuel (last base l₁)) Q s := by
  induction l₂ generalizing l₁ fuel with
  | nil =>
    obtain ⟨fuel, rfl⟩ : ∃ n, fuel = n + 1 := ⟨fuel - 1, by simp at hfuel; omega⟩
    rw [List.append_nil] at hring hsorted hQ
    have hnext : s.ptr (last base l₁) = base := hring.path.ptr_last
    have hlt : last base l₁ < bp := last_of_forall (P := (· < bp)) hbase hlow
    have hge : base ≤ last base l₁ :=
      last_of_forall (P := (base ≤ ·)) le_rfl fun b hb =>
        (Nat.le_add_right _ _).trans (hsorted.le b hb)
    simp only [findPlace, wp_bind, wp_get, hnext]
    rw [if_neg (by omega), if_pos ⟨hge, .inl hlt⟩]
    exact hQ l₁ [] (by rw [List.append_nil]) hlow (by simp)
  | cons b l₂ ih =>
    obtain ⟨fuel, rfl⟩ : ∃ n, fuel = n + 1 := ⟨fuel - 1, by omega⟩
    obtain ⟨m, hm, hpath⟩ := Path.append.mp hring.path
    have hnext : s.ptr (last base l₁) = b.addr := hm.ptr_last.trans hpath.1
    obtain ⟨h₁, h₂, h₁₂⟩ := hsorted.append
    have hlt : last base l₁ < bp := last_of_forall (P := (· < bp)) hbase hlow
    have hup : last base l₁ < b.addr := hsorted.last_lt
    simp only [findPlace, wp_bind, wp_get, hnext]
    by_cases hb : bp < b.addr
    · rw [if_pos ⟨hlt, hb⟩]
      refine hQ l₁ (b :: l₂) rfl hlow ?_
      refine List.forall_mem_cons.mpr ⟨hb, fun c hc => ?_⟩
      have := Block.addr_lt_stop (h₂.pos b (List.mem_cons_self ..))
      have := h₂.head_stop_lt hc
      omega
    · have hbne := hne b (List.mem_append_right _ (List.mem_cons_self ..))
      have happ : l₁ ++ b :: l₂ = (l₁ ++ [b]) ++ l₂ := List.append_cons _ _ _
      rw [happ] at hring hsorted hne hQ
      rw [if_neg (by omega), if_neg (by omega)]
      have hlow' : ∀ c ∈ l₁ ++ [b], c.addr < bp := by
        intro c hc
        rcases List.mem_append.mp hc with hc | hc
        · exact hlow c hc
        · rw [List.mem_singleton.mp hc]
          omega
      have hgo : wp F (findPlace bp fuel (last base (l₁ ++ [b]))) Q s :=
        ih hring hsorted hne hlow' (by rw [List.length_cons] at hfuel; omega) hQ
      rwa [last_append] at hgo

/-- The loop of `free` from a header above the block: it comes to `base`. -/
lemma wp_findPlace_wrap (hring : Ring base (l₁ ++ l₂) s)
    (hsorted : Sorted (base + HEADER) (l₁ ++ l₂)) (hbase : base < bp)
    (hne : ∀ b ∈ l₁ ++ l₂, b.addr ≠ bp) (hup : bp < last base l₁)
    (hfuel : l₂.length + (l₁ ++ l₂).length + 1 < fuel)
    (hQ : ∀ k₁ k₂, l₁ ++ l₂ = k₁ ++ k₂ → (∀ b ∈ k₁, b.addr < bp) → (∀ b ∈ k₂, bp < b.addr) →
      Q (last base k₁) s) :
    wp F (findPlace bp fuel (last base l₁)) Q s := by
  induction l₂ generalizing l₁ fuel with
  | nil =>
    obtain ⟨fuel, rfl⟩ : ∃ n, fuel = n + 1 := ⟨fuel - 1, by omega⟩
    rw [List.append_nil] at hring hsorted hne hfuel hQ
    have hnext : s.ptr (last base l₁) = base := hring.path.ptr_last
    simp only [findPlace, wp_bind, wp_get, hnext]
    rw [if_neg (by omega), if_neg (by omega)]
    rw [← List.nil_append l₁] at hring hsorted hne hQ
    exact wp_findPlace_forward hring hsorted hbase hne (by simp) (by simp at hfuel; omega) hQ
  | cons b l₂ ih =>
    obtain ⟨fuel, rfl⟩ : ∃ n, fuel = n + 1 := ⟨fuel - 1, by omega⟩
    obtain ⟨m, hm, hpath⟩ := Path.append.mp hring.path
    have hnext : s.ptr (last base l₁) = b.addr := hm.ptr_last.trans hpath.1
    obtain ⟨h₁, h₂, h₁₂⟩ := hsorted.append
    have hlt : last base l₁ < b.addr := hsorted.last_lt
    have happ : l₁ ++ b :: l₂ = (l₁ ++ [b]) ++ l₂ := List.append_cons _ _ _
    rw [happ] at hring hsorted hne hQ hfuel
    simp only [findPlace, wp_bind, wp_get, hnext]
    rw [if_neg (by omega), if_neg (by omega)]
    have hlast : last base (l₁ ++ [b]) = b.addr := by
      rw [last_append]
      rfl
    have hgo : wp F (findPlace bp fuel (last base (l₁ ++ [b]))) Q s :=
      ih hring hsorted hne (by rw [hlast]; omega) (by rw [List.length_cons] at hfuel; omega) hQ
    rwa [hlast] at hgo

/-- From any place in the list, the loop of `free` ends at the header after which the block
belongs. -/
lemma wp_findPlace (hring : Ring base fl s) (hsorted : Sorted (base + HEADER) fl)
    (hfreep : s.freep = base ∨ ∃ b ∈ fl, s.freep = b.addr) (hbase : base < bp)
    (hne : ∀ b ∈ fl, b.addr ≠ bp) (hfuel : 2 * fl.length + 1 < fuel)
    (hQ : ∀ k₁ k₂, fl = k₁ ++ k₂ → (∀ b ∈ k₁, b.addr < bp) → (∀ b ∈ k₂, bp < b.addr) →
      Q (last base k₁) s) :
    wp F (findPlace bp fuel s.freep) Q s := by
  rcases hfreep with hfreep | ⟨q, hq, hfreep⟩
  · rw [hfreep]
    rw [← List.nil_append fl] at hring hsorted hne hQ
    exact wp_findPlace_forward hring hsorted hbase hne (by simp) (by omega) hQ
  · obtain ⟨l₁, l₂, rfl⟩ := List.append_of_mem hq
    have happ : l₁ ++ q :: l₂ = (l₁ ++ [q]) ++ l₂ := List.append_cons _ _ _
    have hqne := hne q hq
    rw [happ] at hring hsorted hne hQ hfuel
    have hlast : last base (l₁ ++ [q]) = q.addr := by
      rw [last_append]
      rfl
    rw [hfreep, ← hlast]
    rw [List.length_append] at hfuel
    rcases Nat.lt_or_gt_of_ne hqne with hlt | hgt
    · refine wp_findPlace_forward hring hsorted hbase hne ?_ (by omega) hQ
      intro c hc
      rcases List.mem_append.mp hc with hc | hc
      · have h₁₂ := (Sorted.append hsorted.append.1).2.2 c hc q (List.mem_singleton_self q)
        have := Block.addr_lt_stop (hsorted.pos c (by simp [hc]))
        omega
      · rwa [List.mem_singleton.mp hc]
    · exact wp_findPlace_wrap hring hsorted hbase hne (by rw [hlast]; omega)
        (by rw [List.length_append]; omega) hQ

end FindPlace

/-! ### Joining neighbours -/

/-- The block `b` before the blocks `l` becomes `b'` before `l'`: it is joined to its upper
neighbour, or it has none. -/
inductive Upper (b : Block) : List Block → Block → List Block → Prop
  | link {l : List Block} : (∀ r ∈ l.head?, b.stop ≠ r.addr) → Upper b l b l
  | join {r : Block} {l : List Block} :
      b.stop = r.addr → Upper b (r :: l) ⟨b.addr, b.size + r.size⟩ l

/-- The blocks `l`, then `b`, become `l'`: the block is joined to its lower neighbour, or it has
none. -/
inductive Lower (b : Block) : List Block → List Block → Prop
  | link {l : List Block} : (∀ q ∈ l.getLast?, q.stop ≠ b.addr) → Lower b l (l ++ [b])
  | join {q : Block} {l : List Block} :
      q.stop = b.addr → Lower b (l ++ [q]) (l ++ [⟨q.addr, q.size + b.size⟩])

lemma Upper.addr_eq {b b' : Block} {l l' : List Block} (h : Upper b l b' l') :
    b'.addr = b.addr := by
  cases h with
  | link => rfl
  | join => rfl

section Join

variable {base p bp q : ℕ} {b : Block} {l₁ l₂ : List Block} {s : State}

/-- `joinUpper` changes the header of the block only. -/
lemma joinUpper_of_far (h : Far q bp) :
    (joinUpper p bp s).ptr q = s.ptr q ∧ (joinUpper p bp s).size q = s.size q := by
  rw [joinUpper]
  split_ifs
  · rw [ptr_setPtr_of_far h, ptr_setSize_of_far h, size_setPtr_of_far h, size_setSize_of_far h]
    exact ⟨rfl, rfl⟩
  · exact ⟨ptr_setPtr_of_far h, size_setPtr_of_far h⟩

/-- `joinLower` changes the header of the lower neighbour only. -/
lemma joinLower_of_far (h : Far q p) :
    (joinLower p bp s).ptr q = s.ptr q ∧ (joinLower p bp s).size q = s.size q := by
  rw [joinLower]
  split_ifs
  · rw [ptr_setPtr_of_far h, ptr_setSize_of_far h, size_setPtr_of_far h, size_setSize_of_far h]
    exact ⟨rfl, rfl⟩
  · exact ⟨ptr_setPtr_of_far h, size_setPtr_of_far h⟩

/-- The block with its upper neighbour, before the rest of the list. -/
lemma joinUpper_spec (hptr : Path s (s.ptr p) l₂ base) (hsize : s.size b.addr = b.size)
    (hfar : ∀ c ∈ l₂, Far c.addr b.addr) (hp : Far p b.addr) (hbase : base < b.addr)
    (hlt : ∀ c ∈ l₂, b.size + c.size < 2 ^ 32) :
    ∃ b' l₂', Upper b l₂ b' l₂' ∧ (joinUpper p b.addr s).size b.addr = b'.size ∧
      Path (joinUpper p b.addr s) ((joinUpper p b.addr s).ptr b.addr) l₂' base := by
  have hframe : ∀ c ∈ l₂, (joinUpper p b.addr s).ptr c.addr = s.ptr c.addr ∧
      (joinUpper p b.addr s).size c.addr = s.size c.addr := fun c hc => joinUpper_of_far (hfar c hc)
  by_cases hjoin : b.addr + s.size b.addr * HEADER = s.ptr p
  · have hstop : b.stop = s.ptr p := by rw [← hjoin, hsize, Block.stop]
    cases l₂ with
    | nil =>
      -- the list goes on with `base`, which lies below
      have : s.ptr p = base := hptr
      rw [Block.stop] at hstop
      omega
    | cons r l₂ =>
      obtain ⟨hr, hrsize, hrest⟩ := hptr
      have hrfar := hfar r (List.mem_cons_self ..)
      rw [hr] at hrsize hrest
      refine ⟨_, l₂, .join (hstop.trans hr), ?_, ?_⟩
      · rw [joinUpper, if_pos hjoin, size_setPtr_self, hsize, hr, hrsize]
        exact size_setSize_self (hlt r (List.mem_cons_self ..))
      · have hnext : (joinUpper p b.addr s).ptr b.addr = s.ptr r.addr := by
          rw [joinUpper, if_pos hjoin]
          dsimp only
          rw [ptr_setPtr_self (ptr_lt _ _), ptr_setSize_of_far hp, hr, ptr_setSize_of_far hrfar]
        rw [hnext]
        exact hrest.congr fun c hc => hframe c (List.mem_cons_of_mem r hc)
  · refine ⟨b, l₂, .link ?_, ?_, ?_⟩
    · intro r hr heq
      cases l₂ with
      | nil => simp at hr
      | cons c l₂ =>
        obtain rfl : c = r := by simpa using hr
        apply hjoin
        rw [hptr.1, ← heq, hsize, Block.stop]
    · rw [joinUpper, if_neg hjoin, size_setPtr_self, hsize]
    · have hnext : (joinUpper p b.addr s).ptr b.addr = s.ptr p := by
        rw [joinUpper, if_neg hjoin, ptr_setPtr_self (ptr_lt _ _)]
      rw [hnext]
      exact hptr.congr hframe

/-- The list with the block, or with the lower neighbour enlarged by it. -/
lemma joinLower_spec {z : ℕ} (hbsize : s.size base = 0) (hl₁ : Path s (s.ptr base) l₁ z)
    (hsize : s.size b.addr = b.size) (hl₂ : Path s (s.ptr b.addr) l₂ base)
    (hsorted : Sorted (base + HEADER) l₁) (hbase : base < b.addr) (hb : b.addr < 2 ^ 64)
    (hfar : Far (last base l₁) b.addr) (hfar₂ : ∀ c ∈ l₂, Far (last base l₁) c.addr)
    (hlt : ∀ c ∈ l₁, c.size + b.size < 2 ^ 32) :
    ∃ l₁', Lower b l₁ l₁' ∧ Ring base (l₁' ++ l₂) (joinLower (last base l₁) b.addr s) := by
  set p := last base l₁ with hp
  have hframe : ∀ c ∈ l₂, (joinLower p b.addr s).ptr c.addr = s.ptr c.addr ∧
      (joinLower p b.addr s).size c.addr = s.size c.addr :=
    fun c hc => joinLower_of_far (hfar₂ c hc).symm
  by_cases hjoin : p + s.size p * HEADER = b.addr
  · rcases List.eq_nil_or_concat l₁ with rfl | ⟨l, q, rfl⟩
    · -- `base` is empty and has no neighbour
      rw [show p = base from hp, hbsize] at hjoin
      omega
    · rw [List.concat_eq_append] at *
      have hq : p = q.addr := by
        rw [hp, last_append]
        rfl
      obtain ⟨m, hm, hmq, hqsize, -⟩ := Path.append.mp hl₁
      subst hmq
      rw [hq] at hjoin hfar ⊢
      rw [hqsize] at hjoin
      refine ⟨_, .join hjoin, ?_⟩
      have hfarl : ∀ c ∈ base :: l.map Block.addr, Far c q.addr := by
        have hpair := hsorted.pairwise_far
        rw [List.map_append, ← List.cons_append] at hpair
        exact fun c hc => (List.pairwise_append.mp hpair).2.2 c hc _ (by simp)
      obtain ⟨hbptr, hbsize'⟩ : (joinLower q.addr b.addr s).ptr base = s.ptr base ∧
          (joinLower q.addr b.addr s).size base = s.size base :=
        joinLower_of_far (hfarl base (List.mem_cons_self ..))
      have hsize' : (joinLower q.addr b.addr s).size q.addr = q.size + b.size := by
        rw [joinLower, hqsize, if_pos hjoin, size_setPtr_self, hsize]
        exact size_setSize_self (hlt q (by simp))
      have hnext : (joinLower q.addr b.addr s).ptr q.addr = s.ptr b.addr := by
        rw [joinLower, hqsize, if_pos hjoin, ptr_setPtr_self (ptr_lt _ _),
          ptr_setSize_of_far hfar.symm]
      refine ⟨hbsize'.trans hbsize, ?_⟩
      rw [List.append_assoc, hbptr]
      refine Path.append.mpr ⟨q.addr, ?_, rfl, hsize', ?_⟩
      · refine hm.congr fun c hc => joinLower_of_far (hfarl _ ?_)
        exact List.mem_cons_of_mem _ (List.mem_map_of_mem hc)
      · rw [hnext]
        rw [hq] at hframe
        exact hl₂.congr hframe
  · refine ⟨_, .link ?_, ?_, ?_⟩
    · intro q hq heq
      obtain ⟨l, rfl⟩ := List.getLast?_eq_some_iff.mp hq
      have hq' : p = q.addr := by
        rw [hp, last_append]
        rfl
      apply hjoin
      rw [hq', hl₁.size_of_mem (by simp), ← heq, Block.stop]
    · rw [joinLower, if_neg hjoin]
      rcases last_eq_or_mem base l₁ with heq | ⟨c, hc, heq⟩
      · rw [hp, heq, size_setPtr_self, hbsize]
      · rw [hp, heq, size_setPtr_of_far, hbsize]
        exact .inl (hsorted.le c hc)
    · have hpath := hl₁.setPtr_last hb hsorted.pairwise_far
      rw [← hp, show s.setPtr p b.addr = joinLower p b.addr s by rw [joinLower, if_neg hjoin]]
        at hpath
      rw [List.append_assoc]
      obtain ⟨hptr', hsize'⟩ : (joinLower p b.addr s).ptr b.addr = s.ptr b.addr ∧
          (joinLower p b.addr s).size b.addr = s.size b.addr := joinLower_of_far hfar.symm
      refine Path.append.mpr ⟨b.addr, hpath, rfl, hsize'.trans hsize, ?_⟩
      rw [hptr']
      exact hl₂.congr hframe

end Join

end Xv6.Umalloc
