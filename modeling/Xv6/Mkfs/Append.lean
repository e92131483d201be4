import Xv6.Fs.Content
import Xv6.Mkfs.Basic

/-!
# Appending to files

The image as a volume: `mkfs` hands out blocks in order, so the blocks in use are those before
`freeblock`. Appending to a file takes exactly the blocks that the new size needs.
-/

namespace Xv6.Mkfs

open Core Coroutine Fs

/-- The layout that the kernel finds on the image. -/
abbrev L : Layout := Layout.mkfs

/-- The image shows the volume `V`; the inodes in `D` have not been written back yet. -/
structure Shows (D : Set ℕ) (img : State) (V : Volume) : Prop where
  sectors : img.sectors = FSSIZE
  free_le : img.freeblock ≤ FSSIZE
  used : ∀ b, V.used b ↔ b < img.freeblock
  data : ∀ b, L.nmeta ≤ b → b < FSSIZE → img.disk b = V.data b
  /-- Blocks that have not been handed out are clear. -/
  zero : ∀ b, L.nmeta ≤ b → img.freeblock ≤ b → b < FSSIZE → img.disk b = Block.zero
  inode : ∀ n < NINODES, n ∉ D → (img.disk (L.IBLOCK n)).dinode (n % IPB) = V.inode n
  superblock : img.disk 1 = sbBlock

variable {D : Set ℕ} {img : State} {V : Volume} {F : Exit → Prop} {n b k fbn : ℕ} {d : Dinode}

/-! ### Sectors -/

variable {Q : PUnit → State → Prop}

@[simp]
lemma wp_wsect {buf : Block} :
    wp F (wsect b buf) Q img ↔ Q ⟨⟩ { img with
      disk := Function.update img.disk b buf
      sectors := max img.sectors (b + 1) } := Iff.rfl

lemma wp_rsect {Q : Block → State → Prop} (hF : img.sectors ≤ b → F .die)
    (hQ : b < img.sectors → Q (img.disk b) img) : wp F (rsect b) Q img := by
  simp only [rsect, wp_bind, wp_get]
  apply wp_ite
  · exact hQ
  · exact fun hb => hF (Nat.not_lt.mp hb)

lemma wp_assert {p : Prop} [Decidable p] (hF : ¬p → F .assert) (hQ : p → Q ⟨⟩ img) :
    wp F (assert p) Q img := by
  apply wp_ite
  · exact hQ
  · exact hF

lemma wp_takeBlock {Q : ℕ → State → Prop}
    (hQ : Q img.freeblock { img with freeblock := img.freeblock + 1 }) :
    wp F takeBlock Q img := hQ

namespace Shows

lemma IBLOCK_lt (h : Shows D img V) (hn : n < NINODES) : L.IBLOCK n < img.sectors := by
  have hlt := L.IBLOCK_lt hn
  rw [h.sectors]
  exact hlt.trans (by decide)

lemma IBLOCK_ne_one (n : ℕ) : L.IBLOCK n ≠ 1 := by
  have hle : L.inodestart ≤ L.IBLOCK n := Nat.le_add_left _ _
  have hstart : 1 < L.inodestart := by decide
  omega

/-- A data block is written. -/
lemma write (h : Shows D img V) {buf : Block} (hb : L.nmeta ≤ b) (hlt : b < img.freeblock) :
    Shows D { img with
      disk := Function.update img.disk b buf
      sectors := max img.sectors (b + 1) } (V.write b buf) where
  sectors := by
    have := h.free_le
    have := h.sectors
    show max img.sectors (b + 1) = FSSIZE
    omega
  free_le := h.free_le
  used := h.used
  data x hx hx' := by
    rcases eq_or_ne x b with rfl | hne
    · simp
    · rw [Volume.write_data_of_ne hne]
      simp only [Function.update_of_ne hne]
      exact h.data x hx hx'
  zero x hx hx' hx'' := by
    have hne : x ≠ b := by
      have : img.freeblock ≤ x := hx'
      omega
    simp only [Function.update_of_ne hne]
    exact h.zero x hx hx' hx''
  inode m hm hmD := by
    simp only [Function.update_of_ne (L.IBLOCK_ne hm hb)]
    exact h.inode m hm hmD
  superblock := by
    have hne : 1 ≠ b := by
      rintro rfl
      exact absurd hb (by decide)
    simp only [Function.update_of_ne hne]
    exact h.superblock

/-- The next block is handed out. -/
lemma mark (h : Shows D img V) (hlt : img.freeblock < FSSIZE) :
    Shows D { img with freeblock := img.freeblock + 1 } (V.mark img.freeblock) where
  sectors := h.sectors
  free_le := hlt
  used x := by
    show V.used x ∨ x = img.freeblock ↔ x < img.freeblock + 1
    rw [h.used]
    omega
  data x hx hx' := by
    rcases eq_or_ne x img.freeblock with rfl | hne
    · simp only [Volume.mark, Function.update_self]
      exact h.zero _ hx le_rfl hx'
    · simp only [Volume.mark, Function.update_of_ne hne]
      exact h.data x hx hx'
  zero x hx hx' hx'' := by
    have hle : img.freeblock + 1 ≤ x := hx'
    exact h.zero x hx (by omega) hx''
  inode := h.inode
  superblock := h.superblock

/-- The inode in a variable of the program is changed. -/
lemma setInode (h : Shows {n} img V) (d : Dinode) : Shows {n} img (V.setInode n d) where
  sectors := h.sectors
  free_le := h.free_le
  used := h.used
  data := h.data
  zero := h.zero
  inode m hm hmD := by
    rw [Volume.setInode_inode_of_ne hmD]
    exact h.inode m hm hmD
  superblock := h.superblock

lemma mono (h : Shows ∅ img V) : Shows D img V where
  sectors := h.sectors
  free_le := h.free_le
  used := h.used
  data := h.data
  zero := h.zero
  inode m hm _ := h.inode m hm (Set.notMem_empty m)
  superblock := h.superblock

lemma wp_rinode {Q : Dinode → State → Prop} (h : Shows ∅ img V) (hn : n < NINODES)
    (hQ : Q (V.inode n) img) : wp F (rinode n) Q img := by
  have hlt := h.IBLOCK_lt hn
  rw [rinode, wp_bind]
  apply wp_rsect
  · exact fun hge => absurd hlt (Nat.not_lt.mpr hge)
  · intro _
    rw [wp_pure, h.inode n hn (Set.notMem_empty n)]
    exact hQ

/-- The inode is written back. -/
lemma wp_winode (h : Shows {n} img V) (hn : n < NINODES)
    (hd : V.inode n = d)
    (hQ : ∀ img', Shows ∅ img' V → img'.freeblock = img.freeblock →
      img'.freeinode = img.freeinode → Q ⟨⟩ img') : wp F (winode n d) Q img := by
  have hlt := h.IBLOCK_lt hn
  have hmeta : L.IBLOCK n < L.nmeta := (L.IBLOCK_lt hn).trans L.bmapstart_lt
  have hIPB : n % IPB < IPB := Nat.mod_lt _ (by decide)
  rw [winode, wp_bind]
  apply wp_rsect
  · exact fun hge => absurd hlt (Nat.not_lt.mpr hge)
  intro _
  rw [wp_wsect]
  refine hQ _ ?_ rfl rfl
  refine ⟨?_, h.free_le, h.used, ?_, ?_, ?_, ?_⟩
  · have := h.sectors
    show max img.sectors (L.IBLOCK n + 1) = FSSIZE
    omega
  · intro x hx hx'
    simp only [Function.update_of_ne (L.IBLOCK_ne hn hx).symm]
    exact h.data x hx hx'
  · intro x hx hx' hx''
    simp only [Function.update_of_ne (L.IBLOCK_ne hn hx).symm]
    exact h.zero x hx hx' hx''
  · intro m hm _
    rcases eq_or_ne m n with rfl | hne
    · simp only [Function.update_self, Block.dinode_setDinode_self _ _ hIPB, hd]
    · rw [← h.inode m hm hne]
      by_cases hblock : L.IBLOCK m = L.IBLOCK n
      · have hslot : m % IPB ≠ n % IPB := by
          intro hmod
          apply hne
          have hdiv : m / IPB = n / IPB := Nat.add_right_cancel hblock
          rw [← Nat.div_add_mod m IPB, ← Nat.div_add_mod n IPB, hdiv, hmod]
        simp only [hblock, Function.update_self, Block.dinode_setDinode_of_ne _ _ hslot]
      · simp only [Function.update_of_ne hblock]
  · simp only [Function.update_of_ne (IBLOCK_ne_one n).symm]
    exact h.superblock

end Shows

/-! ### The blocks that a file needs -/

/-- How many blocks of content a file of `e` bytes has. -/
def blocks (e : ℕ) : ℕ := (e + BSIZE - 1) / BSIZE

/-- How many blocks a file of `e` bytes takes, with its indirect block. -/
def cost (e : ℕ) : ℕ := blocks e + if NDIRECT < blocks e then 1 else 0

lemma cost_mono {e e' : ℕ} (h : e ≤ e') : cost e ≤ cost e' := by
  have hblocks : blocks e ≤ blocks e' := Nat.div_le_div_right (by omega)
  unfold cost
  split <;> split <;> omega

/-- A file cannot have more blocks than its inode and its indirect block have places for. -/
lemma le_of_mappedTo {e : ℕ} (h : V.MappedTo L n e) : e ≤ MAXFILE * BSIZE := by
  by_contra hlt
  have hentry := h MAXFILE (Nat.not_le.mp hlt)
  obtain ⟨x, hx⟩ := Option.ne_none_iff_exists'.mp hentry
  have hword : ∀ blk : Block, blk.word (MAXFILE - NDIRECT) = 0 :=
    fun blk => blk.word_of_le (by decide)
  rw [Volume.ref_of_allocated (Volume.allocated_of_ref hx), fileSlot_of_le (by decide)] at hx
  simp only [Dinode.block, hword] at hx
  split at hx
  · cases hx
  · exact absurd (nonzero_eq_some.mp hx) (by omega)

/-- The file `n` has no blocks but those that `e` bytes need. -/
structure Tight (V : Volume) (n e : ℕ) : Prop where
  file : ∀ bn, V.ref L (n, fileSlot bn) ≠ none → bn * BSIZE < e
  indirect : V.ref L (n, .indirect) ≠ none → NDIRECT * BSIZE < e

/-- How many blocks must be taken before the block `fbn` of the file can be written. -/
def missing (V : Volume) (n fbn : ℕ) : ℕ :=
  (if V.ref L (n, fileSlot fbn) = none then 1 else 0)
    + if NDIRECT ≤ fbn ∧ V.ref L (n, .indirect) = none then 1 else 0

/-- A file with entries in its indirect block has an indirect block. -/
lemma ref_indirect_of_entry {j : ℕ} (h : V.ref L (n, .entry j) ≠ none) :
    V.ref L (n, .indirect) ≠ none := by
  obtain ⟨x, hx⟩ := Option.ne_none_iff_exists'.mp h
  have hn := Volume.allocated_of_ref hx
  have ha : (V.inode n).addr NDIRECT ≠ 0 := by
    intro ha
    rw [Volume.ref_of_allocated hn, Dinode.block, if_pos ha] at hx
    cases hx
  rw [Volume.ref_indirect hn ha]
  simp

/-- A new block of content is needed at the start of a block, and the indirect block with the first
one that it lists. -/
lemma cost_step {off c : ℕ} (hc : 0 < c) (hle : c ≤ (off / BSIZE + 1) * BSIZE - off) :
    cost (off + c) = cost off + ((if off % BSIZE = 0 then 1 else 0)
      + if NDIRECT ≤ off / BSIZE ∧ off = NDIRECT * BSIZE then 1 else 0) := by
  unfold cost
  split_ifs <;> simp only [blocks, BSIZE, NDIRECT] at * <;> omega

/-- One round takes the blocks by which the cost of the file grows. -/
lemma cost_add {off c : ℕ} (hmapped : V.MappedTo L n off) (htight : Tight V n off) (hc : 0 < c)
    (hle : c ≤ (off / BSIZE + 1) * BSIZE - off) :
    cost (off + c) = cost off + missing V n (off / BSIZE) := by
  have hfile : V.ref L (n, fileSlot (off / BSIZE)) = none ↔ off % BSIZE = 0 := by
    constructor
    · intro hnone
      by_contra hne
      apply hmapped (off / BSIZE) _ hnone
      simp only [BSIZE] at hne ⊢
      omega
    · intro hzero
      by_contra hne
      have := htight.file _ hne
      simp only [BSIZE] at this hzero
      omega
  have hind : NDIRECT ≤ off / BSIZE →
      (V.ref L (n, .indirect) = none ↔ off = NDIRECT * BSIZE) := by
    intro hge
    constructor
    · intro hnone
      by_contra hne
      have hentry : V.ref L (n, fileSlot NDIRECT) ≠ none := by
        apply hmapped
        simp only [BSIZE, NDIRECT] at hge hne ⊢
        omega
      rw [fileSlot_of_le le_rfl] at hentry
      exact ref_indirect_of_entry hentry hnone
    · intro heq
      by_contra hne
      have := htight.indirect hne
      omega
  rw [cost_step hc hle, missing]
  simp only [hfile, and_congr_right hind]

/-! ### One block more -/

namespace Shows

variable {img' : State} {V' : Volume}

/-- The only new place is that of the block that was handed out. -/
lemma ref_new (h : Shows D img V) (h' : Shows D img' V') (hok : V.Ok L) (hok' : V'.Ok L)
    (hgrows : Volume.Grows L n V V') (hfree : img'.freeblock = img.freeblock + 1)
    {r r' : ℕ × Slot} (hr : V'.ref L r = some img.freeblock) (hr' : V'.ref L r' ≠ none) :
    V.ref L r' ≠ none ∨ r' = r := by
  obtain ⟨x, hx⟩ := Option.ne_none_iff_exists'.mp hr'
  have hlt : x < img.freeblock + 1 := by
    rw [← hfree, ← h'.used]
    exact hok'.exact.used_of_ref hx
  rcases Nat.lt_succ_iff_lt_or_eq.mp hlt with hlt | rfl
  · left
    rcases (hok.exact.used_iff x).mp ((h.used x).mpr hlt) with hmeta | ⟨r₀, hr₀⟩
    · exact absurd hmeta (hok'.exact.not_reserved hx)
    · have heq := hok'.exact.inj hx (hgrows.ref r₀ x hr₀)
      rw [heq, hr₀]
      simp
  · exact .inr (hok'.exact.inj hx hr)

lemma not_used (h : Shows D img V) : ¬V.used img.freeblock := by
  rw [h.used]
  exact lt_irrefl _

section

variable (h : Shows {n} img V) (hok : V.Ok L) (hn : V.Allocated L n)

include h hok hn

/-- `addrs[k]` gets the next block if it has none. If there is no next block, it gets a number that
cannot be read. -/
lemma wp_iappendAddr {Q : Dinode → State → Prop} (hk : k ≤ NDIRECT)
    (hover : V.ref L (n, addrSlot k) = none → FSSIZE ≤ img.freeblock →
      ∀ d' img', img'.sectors = FSSIZE → FSSIZE ≤ d'.addr k → Q d' img')
    (hQ : ∀ img' V', Shows {n} img' V' → V'.Ok L → Volume.Grows L n V V' →
      V'.ref L (n, addrSlot k) = some ((V'.inode n).addr k) →
      img'.freeblock = img.freeblock + (if V.ref L (n, addrSlot k) = none then 1 else 0) →
      img'.freeinode = img.freeinode →
      (∀ r, V'.ref L r ≠ none → V.ref L r ≠ none ∨ r = (n, addrSlot k)) → Q (V'.inode n) img') :
    wp F (iappendAddr (V.inode n) k) Q img := by
  have href : V.ref L (n, addrSlot k) = nonzero ((V.inode n).addr k) := Volume.ref_addrSlot hn hk
  rw [iappendAddr]
  apply wp_ite
  · intro hzero
    have hnone : V.ref L (n, addrSlot k) = none := by rw [href, hzero, nonzero_eq_none]
    have hb32 : img.freeblock < 2 ^ 32 := h.free_le.trans_lt (by decide)
    rw [wp_bind]
    apply wp_takeBlock
    rw [wp_pure]
    by_cases hlt : img.freeblock < FSSIZE
    · obtain ⟨hok', hgrows, hself⟩ := hok.alloc_addr hn hk hzero h.not_used hlt
      have h' : Shows {n} _ ((V.mark img.freeblock).assign n k img.freeblock) :=
        (h.mark hlt).setInode _
      have hinode : ((V.mark img.freeblock).assign n k img.freeblock).inode n
          = (V.inode n).setAddr k img.freeblock := by
        rw [Volume.assign, Volume.setInode_inode_self]
        rfl
      rw [← hinode]
      apply hQ _ _ h' hok' hgrows
      · rw [hself, hinode, Dinode.addr_setAddr_self _ hk hb32]
      · rw [if_pos hnone]
      · rfl
      · exact fun r hr => h.ref_new h' hok hok' hgrows rfl hself hr
    · have hge := Nat.not_lt.mp hlt
      apply hover hnone hge
      · exact h.sectors
      · rw [Dinode.addr_setAddr_self _ hk hb32]
        exact hge
  · intro hne
    have hsome : V.ref L (n, addrSlot k) = some ((V.inode n).addr k) := by
      rw [href, nonzero_eq_some]
      exact ⟨rfl, hne⟩
    rw [wp_pure]
    apply hQ img V h hok .refl hsome
    · rw [if_neg (by rw [hsome]; simp)]
      rfl
    · rfl
    · exact fun r hr => .inl hr

/-- An entry of the indirect block gets the next block if it has none. -/
lemma wp_iappendEntry {Q : ℕ → State → Prop} {j : ℕ} (hj : j < NINDIRECT)
    (ha : V.ref L (n, .indirect) = some ((V.inode n).addr NDIRECT))
    (hover : V.ref L (n, .entry j) = none → FSSIZE ≤ img.freeblock →
      ∀ x img', img'.sectors = FSSIZE → FSSIZE ≤ x → Q x img')
    (hQ : ∀ img' V' x, Shows {n} img' V' → V'.Ok L → Volume.Grows L n V V' →
      V'.inode n = V.inode n → V'.ref L (n, .entry j) = some x →
      img'.freeblock = img.freeblock + (if V.ref L (n, .entry j) = none then 1 else 0) →
      img'.freeinode = img.freeinode →
      (∀ r, V'.ref L r ≠ none → V.ref L r ≠ none ∨ r = (n, .entry j)) → Q x img') :
    wp F (iappendEntry (V.inode n) j) Q img := by
  have hlt : (V.inode n).addr NDIRECT < FSSIZE := hok.lt_of_ref ha
  have hmeta := hok.le_of_ref ha
  set a := (V.inode n).addr NDIRECT with hset
  have hdata : img.disk a = V.data a := h.data a hmeta hlt
  have hword : V.ref L (n, .entry j) = nonzero ((img.disk a).word j) := by
    rw [Volume.ref_of_allocated hn, Dinode.block, ← hset, if_neg (Volume.ref_ne_zero ha), hdata]
  rw [iappendEntry, wp_bind]
  apply wp_rsect
  · intro hout
    rw [h.sectors] at hout
    exact absurd hlt (Nat.not_lt.mpr hout)
  intro _
  apply wp_ite
  · intro hzero
    have hnone : V.ref L (n, .entry j) = none := by rw [hword, hzero, nonzero_eq_none]
    have hb32 : img.freeblock < 2 ^ 32 := h.free_le.trans_lt (by decide)
    have hx : ((img.disk a).setWord j img.freeblock).word j = img.freeblock := by
      rw [Block.word_setWord_self _ _ hj, Nat.mod_eq_of_lt hb32]
    rw [wp_bind]
    apply wp_takeBlock
    rw [wp_bind, wp_wsect, wp_pure, hx]
    by_cases hroom : img.freeblock < FSSIZE
    · obtain ⟨hok', hgrows, hself⟩ := hok.alloc_entry ha hj hnone h.not_used hroom
      have hne : a ≠ img.freeblock := hok.ne_of_not_used h.not_used ha
      have hwrite : (V.mark img.freeblock).setEntry a j img.freeblock
          = (V.mark img.freeblock).write a ((img.disk a).setWord j img.freeblock) := by
        rw [Volume.setEntry, hdata]
        simp only [Volume.mark, Function.update_of_ne hne]
      have hused : a < img.freeblock + 1 :=
        Nat.lt_succ_of_lt ((h.used a).mp (hok.exact.used_of_ref ha))
      have h' : Shows {n} _ ((V.mark img.freeblock).setEntry a j img.freeblock) :=
        hwrite ▸ (h.mark hroom).write hmeta hused
      apply hQ _ _ _ h' hok' hgrows
      · rfl
      · exact hself
      · rw [if_pos hnone]
      · rfl
      · exact fun r hr => h.ref_new h' hok hok' hgrows rfl hself hr
    · apply hover hnone (Nat.not_lt.mp hroom) _ _ _ (Nat.not_lt.mp hroom)
      show max img.sectors (a + 1) = FSSIZE
      have := h.sectors
      omega
  · intro hne
    have hsome : V.ref L (n, .entry j) = some ((img.disk a).word j) := by
      rw [hword, nonzero_eq_some]
      exact ⟨rfl, hne⟩
    rw [wp_pure]
    apply hQ img V _ h hok .refl rfl hsome
    · rw [hsome, if_neg (Option.some_ne_none _)]
      rfl
    · rfl
    · exact fun r hr => .inl hr

/-- The block `fbn` of the file is found, and taken if there is none. -/
lemma wp_iappendBlock {Q : Dinode × ℕ → State → Prop} (hfbn : fbn < MAXFILE)
    (hF : FSSIZE < img.freeblock + missing V n fbn → F .die)
    (hover : FSSIZE < img.freeblock + missing V n fbn →
      ∀ d' x img', img'.sectors = FSSIZE → FSSIZE ≤ x → Q (d', x) img')
    (hQ : ∀ img' V' x, Shows {n} img' V' → V'.Ok L → Volume.Grows L n V V' →
      V'.ref L (n, fileSlot fbn) = some x → img'.freeblock = img.freeblock + missing V n fbn →
      img'.freeinode = img.freeinode →
      (∀ r, V'.ref L r ≠ none → V.ref L r ≠ none ∨ r = (n, fileSlot fbn) ∨
        NDIRECT ≤ fbn ∧ r = (n, .indirect)) → Q (V'.inode n, x) img') :
    wp F (iappendBlock (V.inode n) fbn) Q img := by
  rw [iappendBlock]
  apply wp_ite
  · intro hlt
    have hslot := fileSlot_eq_addrSlot hlt
    have hdirect : ¬(NDIRECT ≤ fbn ∧ V.ref L (n, .indirect) = none) :=
      fun hge => absurd hlt (Nat.not_lt.mpr hge.1)
    have hmissing : missing V n fbn = if V.ref L (n, addrSlot fbn) = none then 1 else 0 := by
      rw [missing, if_neg hdirect, hslot, Nat.add_zero]
    rw [wp_bind]
    apply h.wp_iappendAddr hok hn hlt.le
    · intro hnone hge d' img' hsectors hd'
      apply hover _ d' _ img' hsectors hd'
      rw [hmissing, if_pos hnone]
      omega
    · intro img' V' h' hok' hgrows hself hfree hinode hnew
      rw [wp_pure]
      apply hQ img' V' _ h' hok' hgrows
      · rw [hslot]
        exact hself
      · rw [hmissing]
        exact hfree
      · exact hinode
      · intro r hr
        rw [hslot]
        rcases hnew r hr with hr | hr
        · exact .inl hr
        · exact .inr (.inl hr)
  · intro hge
    have hge := Nat.not_lt.mp hge
    have hj : fbn - NDIRECT < NINDIRECT := by
      simp only [MAXFILE] at hfbn
      omega
    have hslot : fileSlot fbn = .entry (fbn - NDIRECT) := fileSlot_of_le hge
    have hmissing : missing V n fbn
        = (if V.ref L (n, .entry (fbn - NDIRECT)) = none then 1 else 0)
          + if V.ref L (n, .indirect) = none then 1 else 0 := by
      rw [missing, hslot]
      simp only [hge, true_and]
    -- without an indirect block there are no entries
    have hentry : V.ref L (n, .indirect) = none →
        V.ref L (n, .entry (fbn - NDIRECT)) = none := by
      intro hnone
      by_contra hne
      exact ref_indirect_of_entry hne hnone
    rw [wp_bind]
    apply h.wp_iappendAddr hok hn le_rfl
    · intro hnone hfull d' img' hsectors hd'
      rw [addrSlot_NDIRECT] at hnone
      rw [wp_bind, iappendEntry, wp_bind]
      apply wp_rsect
      · intro _
        apply hF
        rw [hmissing, if_pos (hentry hnone)]
        omega
      · intro hlt
        omega
    · intro img₁ V₁ h₁ hok₁ hgrows₁ hself₁ hfree₁ hinode₁ hnew₁
      rw [addrSlot_NDIRECT] at hself₁ hfree₁ hnew₁
      have hsame : V₁.ref L (n, .entry (fbn - NDIRECT)) = none
          ↔ V.ref L (n, .entry (fbn - NDIRECT)) = none := by
        constructor
        · intro hnone
          by_contra hne
          exact hgrows₁.mapped hne hnone
        · intro hnone
          by_contra hne
          rcases hnew₁ _ hne with hne | heq
          · exact hne hnone
          · cases heq
      have hfree : img₁.freeblock + (if V₁.ref L (n, .entry (fbn - NDIRECT)) = none then 1 else 0)
          = img.freeblock + missing V n fbn := by
        rw [hfree₁, hmissing]
        simp only [hsame]
        omega
      rw [wp_bind]
      apply h₁.wp_iappendEntry hok₁ (hgrows₁.allocated_iff.mpr hn) hj hself₁
      · intro hnone hfull x img' hsectors hx
        rw [if_pos hnone] at hfree
        exact hover (by omega) _ x img' hsectors hx
      · intro img₂ V₂ x h₂ hok₂ hgrows₂ hinode₂ hself₂ hfree₂ hfreeinode₂ hnew₂
        rw [wp_pure, ← hinode₂]
        apply hQ img₂ V₂ x h₂ hok₂ (hgrows₁.trans hgrows₂)
        · rw [hslot]
          exact hself₂
        · rw [hfree₂]
          exact hfree
        · exact hfreeinode₂.trans hinode₁
        · intro r hr
          rw [hslot]
          rcases hnew₂ r hr with hr | hr
          · rcases hnew₁ r hr with hr | hr
            · exact .inl hr
            · exact .inr (.inr ⟨hge, hr⟩)
          · exact .inr (.inl hr)

end

end Shows

/-! ### Appending -/

/-- From the volume `V` on, where the file `n` has the blocks for `off` bytes, the bytes `p` are
written there. -/
structure Appended (n off : ℕ) (p : List UInt8) (V V' : Volume) : Prop where
  allocated : V'.Allocated L n
  files : V'.files L = Function.update (V.files L) n
    ((V.files L n).patch off p.length fun t => p.getD t 0)
  ref_of_ne : ∀ m slot, m ≠ n → V'.ref L (m, slot) = V.ref L (m, slot)
  mapped : V'.MappedTo L n (off + p.length)
  tight : Tight V' n (off + p.length)

namespace Appended

variable {off c : ℕ} {p : List UInt8} {V₁ V' : Volume}

lemma nil (hn : V.Allocated L n) (hmapped : V.MappedTo L n off) (htight : Tight V n off) :
    Appended n off [] V V where
  allocated := hn
  files := by rw [List.length_nil, File.patch_zero, Function.update_eq_self]
  ref_of_ne _ _ _ := rfl
  mapped := hmapped
  tight := htight

/-- One round and the rounds after it. -/
lemma cons (hc : c ≤ p.length)
    (hfiles : V₁.files L = Function.update (V.files L) n
      ((V.files L n).patch off c fun t => p.getD t 0))
    (href : ∀ m slot, m ≠ n → V₁.ref L (m, slot) = V.ref L (m, slot))
    (h : Appended n (off + c) (p.drop c) V₁ V') : Appended n off p V V' := by
  have hlength : off + c + (p.drop c).length = off + p.length := by
    rw [List.length_drop]
    omega
  have hdrop : (fun t => (p.drop c).getD t 0) = fun t => p.getD (c + t) 0 := by
    funext t
    rw [List.getD_eq_getElem?_getD, List.getD_eq_getElem?_getD, List.getElem?_drop]
  have hfile := congrFun hfiles n
  rw [Function.update_self] at hfile
  refine ⟨h.allocated, ?_, ?_, ?_, ?_⟩
  · rw [h.files, hfile, hfiles, Function.update_idem, hdrop, File.patch_patch _ _ _ _ (p.getD · 0),
      List.length_drop, Nat.add_sub_cancel' hc]
  · exact fun m slot hm => (h.ref_of_ne m slot hm).trans (href m slot hm)
  · rw [← hlength]
    exact h.mapped
  · rw [← hlength]
    exact h.tight

end Appended

namespace Shows

/-- The rounds of `iappend`. They stop when there are too few blocks, or when the file is too
large. -/
lemma wp_iappendFrom {Q : Dinode × ℕ → State → Prop} {fuel off base : ℕ} {p : List UInt8}
    (h : Shows {n} img V) (hok : V.Ok L) (hn : V.Allocated L n) (hfuel : p.length ≤ fuel)
    (hmapped : V.MappedTo L n off) (htight : Tight V n off)
    (hcost : img.freeblock = base + cost off)
    (hdie : FSSIZE < base + cost (off + p.length) → F .die)
    (hassert : MAXFILE * BSIZE < off + p.length → F .assert)
    (hQ : ∀ img' V', Shows {n} img' V' → V'.Ok L → Appended n off p V V' →
      img'.freeblock = base + cost (off + p.length) → img'.freeinode = img.freeinode →
      Q (V'.inode n, off + p.length) img') :
    wp F (iappendFrom fuel (V.inode n) off p) Q img := by
  induction fuel generalizing img V off p Q with
  | zero =>
    obtain rfl : p = [] := List.length_eq_zero_iff.mp (Nat.le_zero.mp hfuel)
    exact hQ img V h hok (.nil hn hmapped htight) hcost rfl
  | succ fuel ih =>
    rw [iappendFrom]
    apply wp_ite
    swap
    · intro hzero
      obtain rfl : p = [] := List.length_eq_zero_iff.mp (Nat.eq_zero_of_not_pos hzero)
      exact hQ img V h hok (.nil hn hmapped htight) hcost rfl
    intro hpos
    set c := min p.length ((off / BSIZE + 1) * BSIZE - off) with hc
    have hmod : off - off / BSIZE * BSIZE = off % BSIZE := by
      simp only [BSIZE]
      omega
    have hlt : off % BSIZE < BSIZE := Nat.mod_lt _ (by decide)
    have hoff := Nat.div_add_mod off BSIZE
    have hcpos : 0 < c := by
      simp only [BSIZE] at hc hoff hlt
      omega
    have hcle : c ≤ (off / BSIZE + 1) * BSIZE - off := min_le_right _ _
    have hcp : c ≤ p.length := min_le_left _ _
    have hfit : off % BSIZE + c ≤ BSIZE := by
      simp only [BSIZE] at hcle hoff ⊢
      omega
    have hstep := cost_add hmapped htight hcpos hcle
    have hmono : cost (off + c) ≤ cost (off + p.length) := cost_mono (by omega)
    -- if a block is missing, the rest of the file does not fit either
    have hfull : FSSIZE < img.freeblock + missing V n (off / BSIZE) → F .die := by
      intro hfull
      exact hdie (by omega)
    rw [wp_bind]
    apply wp_assert
    · intro hbig
      apply hassert
      simp only [BSIZE, MAXFILE, NDIRECT, NINDIRECT] at hbig ⊢
      omega
    intro hfbn
    rw [wp_bind]
    apply h.wp_iappendBlock hok hn hfbn hfull
    · intro hout d' x img' hsectors hx
      rw [wp_bind]
      apply wp_rsect
      · exact fun _ => hfull hout
      · intro hread
        omega
    intro img₁ V₁ x h₁ hok₁ hgrows₁ hx hfree₁ hinode₁ hnew₁
    have hxlt : x < FSSIZE := hok₁.lt_of_ref hx
    have hxdata : img₁.disk x = V₁.data x := h₁.data x (hok₁.le_of_ref hx) hxlt
    rw [wp_bind]
    apply wp_rsect
    · intro hout
      rw [h₁.sectors] at hout
      exact absurd hxlt (Nat.not_lt.mpr hout)
    intro _
    rw [wp_bind, wp_wsect, hmod, hxdata]
    set blk := (V₁.data x).patch (off % BSIZE) c fun t => p.getD t 0 with hblk
    have h₂ : Shows {n} _ (V₁.write x blk) :=
      h₁.write (hok₁.le_of_ref hx) ((h₁.used x).mp (hok₁.exact.used_of_ref hx))
    have hfiles : (V₁.write x blk).files L = Function.update (V.files L) n
        ((V.files L n).patch off c fun t => p.getD t 0) := by
      rw [hblk, Volume.files_patch hok₁ hx hfit, hgrows₁.files]
    have href : (V₁.write x blk).ref L = V₁.ref L := Volume.ref_write hok₁ hx
    have hmapped₂ : (V₁.write x blk).MappedTo L n (off + c) := by
      intro bn hbn
      rw [href]
      by_cases hold : bn * BSIZE < off
      · exact hgrows₁.mapped (hmapped bn hold)
      · obtain rfl : bn = off / BSIZE := by
          simp only [BSIZE] at hbn hold hcle ⊢
          omega
        rw [hx]
        simp
    have hstart : off / BSIZE * BSIZE < off + c := by
      simp only [BSIZE]
      omega
    have htight₂ : Tight (V₁.write x blk) n (off + c) := by
      constructor
      · intro bn hbn
        rw [href] at hbn
        rcases hnew₁ _ hbn with hold | heq | ⟨-, heq⟩
        · exact (htight.file bn hold).trans (Nat.lt_add_of_pos_right hcpos)
        · obtain rfl := fileSlot_injective (congrArg Prod.snd heq)
          exact hstart
        · exact absurd (congrArg Prod.snd heq) (fileSlot_ne_indirect bn)
      · intro hind
        rw [href] at hind
        rcases hnew₁ _ hind with hold | heq | ⟨hge, -⟩
        · exact (htight.indirect hold).trans (Nat.lt_add_of_pos_right hcpos)
        · exact absurd (congrArg Prod.snd heq).symm (fileSlot_ne_indirect _)
        · exact (Nat.mul_le_mul_right BSIZE hge).trans_lt hstart
    have hlength : off + c + (p.drop c).length = off + p.length := by
      rw [List.length_drop]
      omega
    show wp F (iappendFrom fuel ((V₁.write x blk).inode n) (off + c) (p.drop c)) Q _
    refine ih h₂ (hok₁.write hx) (hgrows₁.allocated_iff.mpr hn) ?_ hmapped₂ htight₂ ?_ ?_ ?_ ?_
    · rw [List.length_drop]
      omega
    · show img₁.freeblock = base + cost (off + c)
      omega
    · rw [hlength]
      exact hdie
    · rw [hlength]
      exact hassert
    · intro img' V' h' hok' happ hfree' hinode'
      rw [hlength] at hfree' ⊢
      refine hQ img' V' h' hok' (.cons hcp hfiles ?_ happ) hfree' (hinode'.trans hinode₁)
      intro m slot hm
      rw [href]
      exact hgrows₁.ref_of_ne m slot hm

/-- `iappend` writes behind the end of the file, and takes the blocks that this needs. -/
lemma wp_iappend {base : ℕ} {p : List UInt8}
    (h : Shows ∅ img V) (hok : V.Ok L) (hn : V.Allocated L n)
    (htight : Tight V n (V.files L n).size)
    (hcost : img.freeblock = base + cost (V.files L n).size)
    (hdie : FSSIZE < base + cost ((V.files L n).size + p.length) → F .die)
    (hassert : MAXFILE * BSIZE < (V.files L n).size + p.length → F .assert)
    (hQ : ∀ img' V', Shows ∅ img' V' → V'.Ok L →
      V'.files L = Function.update (V.files L) n
        ((V.files L n).write (V.files L n).size p.length p.length fun t => p.getD t 0) →
      (∀ m slot, m ≠ n → V'.ref L (m, slot) = V.ref L (m, slot)) →
      Tight V' n ((V.files L n).size + p.length) →
      img'.freeblock = base + cost ((V.files L n).size + p.length) →
      img'.freeinode = img.freeinode → Q ⟨⟩ img') :
    wp F (iappend n p) Q img := by
  set e := (V.files L n).size + p.length with he
  rw [iappend, wp_bind]
  apply h.wp_rinode hn.1
  rw [wp_bind]
  apply h.mono.wp_iappendFrom hok hn le_rfl _ htight hcost hdie hassert
  · intro img₁ V₁ h₁ hok₁ happ hfree₁ hinode₁
    have hfile : V₁.files L n = (V.files L n).patch (V.files L n).size p.length (p.getD · 0) := by
      rw [happ.files, Function.update_self]
    have hle : e ≤ MAXFILE * BSIZE := le_of_mappedTo happ.mapped
    have he32 : e < 2 ^ 32 := hle.trans_lt (by decide)
    have hsize : (UInt32.ofNat e).toNat = e := UInt32.toNat_ofNat_of_lt' he32
    set d : Dinode := { V₁.inode n with size := UInt32.ofNat e } with hd
    have href : (V₁.setInode n d).ref L = V₁.ref L := Volume.ref_setInode rfl fun _ _ => rfl
    have hok₂ : (V₁.setInode n d).Ok L := by
      refine hok₁.setInode rfl (fun _ _ => rfl) ?_
      intro _
      rw [hd, hsize]
      exact ⟨hle, happ.mapped⟩
    have hfiles : (V₁.setInode n d).files L = Function.update (V.files L) n
        ((V.files L n).write (V.files L n).size p.length p.length (p.getD · 0)) := by
      have hmax : max (V.files L n).size e = e := max_eq_right (Nat.le_add_right _ _)
      rw [Volume.files_setInode href, happ.files, Function.update_idem]
      congr 1
      rw [File.write, ← he, hmax, ← hfile, hd, hsize]
      rfl
    apply (h₁.setInode d).wp_winode hn.1 Volume.setInode_inode_self
    intro img₂ h₂ hfree₂ hinode₂
    apply hQ img₂ _ h₂ hok₂ hfiles
    · intro m slot hm
      rw [href]
      exact happ.ref_of_ne m slot hm
    · constructor
      · intro bn
        rw [href]
        exact happ.tight.file bn
      · rw [href]
        exact happ.tight.indirect
    · exact hfree₂.trans hfree₁
    · exact hinode₂.trans hinode₁
  · exact fun bn hbn => hok.mapped hn hbn

/-! ### New inodes -/

/-- The next inode is taken for a new file. -/
lemma wp_ialloc {Q : ℕ → State → Prop} {type : Int16} (h : Shows ∅ img V) (hok : V.Ok L)
    (hn : img.freeinode < NINODES) (hfree : (V.inode img.freeinode).type = 0)
    (hQ : ∀ img' d, d.type = type → Shows ∅ img' (V.setInode img.freeinode d) →
      (V.setInode img.freeinode d).Ok L → (V.setInode img.freeinode d).ref L = V.ref L →
      (V.setInode img.freeinode d).files L = Function.update (V.files L) img.freeinode
        { File.new type with nlink := 1 } →
      img'.freeblock = img.freeblock → img'.freeinode = img.freeinode + 1 →
      Q img.freeinode img') : wp F (ialloc type) Q img := by
  have hempty : ∀ slot, V.ref L (img.freeinode, slot) = none :=
    fun slot => Volume.ref_of_not_allocated fun hn => hn.2 hfree
  set n := img.freeinode with hset
  set d : Dinode := { Dinode.zero with type := type, nlink := 1 } with hd
  have haddr : ∀ k ≤ NDIRECT, d.addr k = 0 := fun k _ => Dinode.addr_zero k
  have href := Volume.ref_setInode_of_empty hempty haddr
  have hcontent : V.content L n = fun _ => 0 := funext fun _ => Volume.content_of_none (hempty _)
  have h₁ : Shows {n} { img with freeinode := n + 1 } (V.setInode n d) := by
    apply setInode
    exact ⟨h.sectors, h.free_le, h.used, h.data, h.zero, fun m hm _ => h.inode m hm (by simp),
      h.superblock⟩
  simp only [ialloc, wp_bind, wp_get, wp_modify]
  apply h₁.wp_winode hn Volume.setInode_inode_self
  intro img' h' hfree' hinode'
  apply hQ img' d rfl h' (hok.setInode_of_empty hempty haddr rfl) href _ hfree' hinode'
  rw [Volume.files_setInode href, hcontent]
  rfl

end Shows

end Xv6.Mkfs
