import Xv6.Bio.Basic

/-!
# The representation of the buffer cache

The list is a circle through all buffers, at most one buffer holds a block, and a counter is the
number of processes that use the buffer plus its pins. A buffer in use keeps its block.
-/

namespace Xv6.Bio

open Core State

variable {P : Type} {s s' : State P} {p q : P} {b c : Fin NBUF} {block : Block}

/-- A process at this place uses the buffer. -/
def Pc.At (pc : Pc) (b : Fin NBUF) : Prop := pc = .waiting b ∨ pc = .releasing b

instance (pc : Pc) (b : Fin NBUF) : Decidable (pc.At b) := inferInstanceAs (Decidable (_ ∨ _))

namespace State

/-- The process waits for the buffer, holds it, or is about to leave `brelse` with it. -/
def Uses (s : State P) (p : P) (b : Fin NBUF) : Prop :=
  (s.buf b).lock = some p ∨ s.pc p = .waiting b ∨ s.pc p = .releasing b

/-- The number of processes that hold the buffer. -/
def holders (s : State P) (b : Fin NBUF) : ℕ := if (s.buf b).lock.isSome then 1 else 0

/-- The number of processes that use the buffer. -/
noncomputable def users (s : State P) (b : Fin NBUF) : ℕ :=
  s.holders b + population s.pc (.waiting b) + population s.pc (.releasing b)

end State

/-- The list of the buffers. -/
def Listed (m : Links Node) : Prop :=
  ∃ l : List (Fin NBUF), l.Perm (List.finRange NBUF) ∧ Circle m none (l.map some)

/-- The state of the cache. -/
structure Cache (s : State P) : Prop where
  listed : Listed s.links
  unique : ∀ b c, (s.buf b).block.dev ≠ 0 → (s.buf b).block = (s.buf c).block → b = c
  sparse : ∀ b, Sparse s.pc (.waiting b) ∧ Sparse s.pc (.releasing b)
  refcnt : ∀ b, (s.buf b).refcnt = s.users b + s.pins b
  requested : ∀ p b, s.Uses p b → (s.request p b).isSome
  request : ∀ p b block, s.request p b = some block →
    s.Uses p b ∧ (s.buf b).block = block ∧ block.dev ≠ 0
  releasing : ∀ p b, s.pc p = .releasing b → (s.buf b).lock ≠ some p

namespace Listed

variable {m : Links Node}

lemma find_next (h : Listed m) (wanted : Node → Bool) (hnone : wanted none = false) :
    (∀ b, (Links.scan m.next none wanted (NBUF + 1) (m.next none)).join = some b →
      wanted (some b)) ∧
    ((Links.scan m.next none wanted (NBUF + 1) (m.next none)).join = none →
      ∀ b, wanted (some b) = false)
    := by
  obtain ⟨l, hl, hcircle⟩ := h
  have hlength : (l.map some).length < NBUF + 1 := by
    rw [List.length_map, hl.length_eq, List.length_finRange]
    exact Nat.lt_succ_self _
  rw [hcircle.scan_next hlength]
  constructor
  · intro b hb
    rw [Option.join_eq_some_iff] at hb
    exact List.find?_some hb
  · intro hjoin b
    rcases hfind : (l.map some).find? wanted with _ | x
    · rw [List.find?_eq_none] at hfind
      simpa using hfind (some b) (List.mem_map_of_mem (hl.mem_iff.mpr (List.mem_finRange b)))
    · rw [hfind] at hjoin
      cases x with
      | none => exact absurd (List.find?_some hfind) (by rw [hnone]; exact Bool.false_ne_true)
      | some c => cases hjoin

lemma flip (h : Listed m) : Listed m.flip := by
  obtain ⟨l, hl, hcircle⟩ := h
  refine ⟨l.reverse, (List.reverse_perm l).trans hl, ?_⟩
  rw [List.map_reverse]
  exact hcircle.flip

/-- A buffer is moved behind the head. -/
lemma move (h : Listed m)
    (b : Fin NBUF) : Listed ((m.unlink (some b)).linkFirst none (some b)) := by
  obtain ⟨l, hl, hcircle⟩ := h
  obtain ⟨l₁, l₂, rfl⟩ := List.append_of_mem (hl.mem_iff.mpr (List.mem_finRange b))
  have hperm : (b :: (l₁ ++ l₂)).Perm (List.finRange NBUF) := List.perm_middle.symm.trans hl
  refine ⟨b :: (l₁ ++ l₂), hperm, ?_⟩
  rw [List.map_append, List.map_cons] at hcircle
  rw [List.map_cons, List.map_append]
  refine hcircle.unlink.linkFirst ?_
  have hnodup := (hperm.nodup_iff).mpr (List.nodup_finRange NBUF)
  rw [← List.map_append]
  simpa using (List.nodup_cons.mp hnodup).1

/-- The loop of `binit`. -/
lemma binit (m : Links Node) : Listed
    ((List.finRange NBUF).foldl (fun m b => m.linkFirst none (some b))
      ((m.setPrev none none).setNext none none)) := by
  -- the buffers so far are in the list, the last one first
  have hloop : ∀ (xs l : List (Fin NBUF)) (m : Links Node), (xs ++ l).Nodup →
      Circle m none (l.map some) →
      Circle (xs.foldl (fun m b => m.linkFirst none (some b)) m)
        none ((xs.reverse ++ l).map some) := by
    intro xs
    induction xs with
    | nil => exact fun l m _ hcircle => hcircle
    | cons b xs ih =>
      intro l m hnodup hcircle
      rw [List.cons_append, List.nodup_cons] at hnodup
      have hb : some b ∉ (none : Node) :: l.map some := by
        simpa using fun hmem => hnodup.1 (List.mem_append_right xs hmem)
      have hnodup' : (xs ++ b :: l).Nodup :=
        List.nodup_middle.mpr (List.nodup_cons.mpr hnodup)
      rw [List.foldl_cons, List.reverse_cons, List.append_assoc, List.singleton_append]
      exact ih (b :: l) _ hnodup' (hcircle.linkFirst hb)
  have hend := hloop (List.finRange NBUF) [] ((m.setPrev none none).setNext none none)
    (by rw [List.append_nil]; exact List.nodup_finRange NBUF)
    (.nil (by simp [Links.setNext]) (by simp [Links.setNext, Links.setPrev]))
  rw [List.append_nil] at hend
  exact ⟨_, List.reverse_perm _, hend⟩

end Listed

namespace Cache

/-- A buffer in use has been counted. -/
lemma users_pos (h : Cache s) (huses : s.Uses p b) : 0 < s.users b := by
  rcases huses with hlock | hwaiting | hreleasing
  · have : s.holders b = 1 := by rw [holders, hlock]; rfl
    rw [users, this]
    omega
  · have := population_pos (h.sparse b).1 hwaiting
    rw [users]
    omega
  · have := population_pos (h.sparse b).2 hreleasing
    rw [users]
    omega

lemma refcnt_pos (h : Cache s) (huses : s.Uses p b) : 0 < (s.buf b).refcnt := by
  have := h.users_pos huses
  rw [h.refcnt b]
  omega

lemma findCached_some (h : Cache s)
    (hb : s.findCached block = some b) : (s.buf b).block = block := by
  simpa [cached] using (h.listed.find_next (s.cached block) rfl).1 b hb

lemma findCached_none (h : Cache s) (hnone : s.findCached block = none) (c : Fin NBUF) :
    (s.buf c).block ≠ block := by
  simpa [cached] using (h.listed.find_next (s.cached block) rfl).2 hnone c

lemma findUnused_some (h : Cache s) (hb : s.findUnused = some b) : (s.buf b).refcnt = 0 := by
  simpa [unused] using (h.listed.flip.find_next s.unused rfl).1 b hb

lemma of_boot (m : Links Node) : Cache (boot m : State P) := by
  have huses : ∀ (p : P) b, ¬(boot m : State P).Uses p b := by
    rintro p b (h | h | h) <;> cases h
  refine ⟨Listed.binit m, ?_, ?_, ?_, ?_, ?_, ?_⟩
  · exact fun b c hdev => absurd rfl hdev
  · intro b
    exact ⟨.of_ne fun p hp => (by cases hp), .of_ne fun p hp => (by cases hp)⟩
  · intro b
    have hwaiting : population (boot m : State P).pc (.waiting b) = 0 :=
      population_of_ne fun p hp => by cases hp
    have hreleasing : population (boot m : State P).pc (.releasing b) = 0 :=
      population_of_ne fun p hp => by cases hp
    rw [users, hwaiting, hreleasing]
    rfl
  · exact fun p b hp => absurd hp (huses p b)
  · exact fun p b block hp => by cases hp
  · exact fun p b hp => by cases hp

variable [DecidableEq P]

lemma sparse_update (h : Cache s) (p : P) (pc : Pc) (c : Fin NBUF) :
    Sparse (Function.update s.pc p pc) (.waiting c) ∧
      Sparse (Function.update s.pc p pc) (.releasing c) :=
  ⟨(h.sparse c).1.update p pc, (h.sparse c).2.update p pc⟩

/-- The users of a buffer when a process goes to another place. -/
lemma users_update (h : Cache s) {pc : Pc} (hpc : s'.pc = Function.update s.pc p pc)
    (c : Fin NBUF) : s'.users c + s.holders c + (if (s.pc p).At c then 1 else 0) =
      s.users c + s'.holders c + if pc.At c then 1 else 0 := by
  have hwaiting := population_update (h.sparse c).1 p pc
  have hreleasing := population_update (h.sparse c).2 p pc
  have hat : ∀ pc : Pc, (if pc.At c then 1 else 0) =
      (if pc = .waiting c then 1 else 0) + if pc = .releasing c then 1 else 0 := by
    intro pc
    cases pc <;> simp [Pc.At]
  rw [hat, hat, users, users, hpc]
  omega

/-- A process changes the buffer `b` and goes to another place. -/
lemma change (h : Cache s) {x : Buf P} (pc : Pc) {r : Option Block} (hlisted : Listed s'.links)
    (hbuf : s'.buf = Function.update s.buf b x) (hpc : s'.pc = Function.update s.pc p pc)
    (hrequest : s'.request = Function.update s.request p (Function.update (s.request p) b r))
    (hpins : ∀ c, c ≠ b → s'.pins c = s.pins c)
    (hold : ∀ c, (s.pc p).At c → c = b) (hnew : ∀ c, pc.At c → c = b)
    (hlock : ∀ q, q ≠ p → (x.lock = some q ↔ (s.buf b).lock = some q))
    (hblock : x.block = (s.buf b).block ∨ (s.buf b).refcnt = 0 ∧ ∀ c, (s.buf c).block ≠ x.block)
    (hr : r.isSome ↔ x.lock = some p ∨ pc.At b)
    (hdev : ∀ block, r = some block → x.block = block ∧ block.dev ≠ 0)
    (hreleasing : pc = .releasing b → x.lock ≠ some p)
    (hrefcnt : x.refcnt + (if (s.buf b).lock.isSome then 1 else 0) +
        (if (s.pc p).At b then 1 else 0) + s.pins b =
      (s.buf b).refcnt + (if x.lock.isSome then 1 else 0) + (if pc.At b then 1 else 0) +
        s'.pins b) : Cache s' := by
  have hself : s'.buf b = x := by rw [hbuf, Function.update_self]
  have hother : ∀ c, c ≠ b → s'.buf c = s.buf c := by
    intro c hc
    rw [hbuf, Function.update_of_ne hc]
  have hreq : ∀ q c, s'.request q c = if q = p ∧ c = b then r else s.request q c := by
    intro q c
    rw [hrequest]
    rcases eq_or_ne q p with rfl | hq
    · rcases eq_or_ne c b with rfl | hc <;> simp [*]
    · simp [hq]
  have hpcp : s'.pc p = pc := by rw [hpc, Function.update_self]
  -- the other processes use what they did
  have huses : ∀ q c, ¬(q = p ∧ c = b) → (s'.Uses q c ↔ s.Uses q c) := by
    intro q c hne
    rw [Uses, Uses]
    rcases eq_or_ne q p with rfl | hq
    · have hc : c ≠ b := fun heq => hne ⟨rfl, heq⟩
      rw [hother c hc, hpcp]
      exact or_congr_right (iff_of_false (fun hat => hc (hnew c hat)) fun hat => hc (hold c hat))
    · rw [hpc, Function.update_of_ne hq]
      rcases eq_or_ne c b with rfl | hc
      · rw [hself, hlock q hq]
      · rw [hother c hc]
  -- a buffer that changes its block has no users
  have hkeep : ∀ q c, s.Uses q c → (s'.buf c).block = (s.buf c).block := by
    intro q c hq
    rcases eq_or_ne c b with rfl | hc
    · rcases hblock with hsame | ⟨hzero, -⟩
      · rw [hself, hsame]
      · exact absurd hzero (h.refcnt_pos hq).ne'
    · rw [hother c hc]
  refine ⟨hlisted, ?_, hpc ▸ h.sparse_update p _, ?_, ?_, ?_, ?_⟩
  · -- the block of `b` is nowhere else
    have hfree : ∀ c, c ≠ b → x.block.dev ≠ 0 → (s.buf c).block ≠ x.block := by
      intro c hc hxdev heq
      rcases hblock with hsame | ⟨-, hnone⟩
      · exact hc (h.unique c b (heq ▸ hxdev) (heq.trans hsame))
      · exact hnone c heq
    intro c d hcdev heq
    rcases eq_or_ne c b with hc | hc <;> rcases eq_or_ne d b with hd | hd
    · rw [hc, hd]
    · rw [hc, hself] at hcdev heq
      rw [hother d hd] at heq
      exact absurd heq.symm (hfree d hd hcdev)
    · rw [hother c hc] at hcdev heq
      rw [hd, hself] at heq
      exact absurd heq (hfree c hc (heq ▸ hcdev))
    · rw [hother c hc] at hcdev heq
      rw [hother d hd] at heq
      exact h.unique c d hcdev heq
  · intro c
    have husers := h.users_update hpc c
    have hc := h.refcnt c
    rcases eq_or_ne c b with rfl | hcb
    · rw [holders, holders, hself] at husers
      rw [hself]
      split_ifs at husers hrefcnt <;> omega
    · have hholders : s'.holders c = s.holders c := by rw [holders, hother c hcb, holders]
      rw [if_neg fun hat => hcb (hold c hat), if_neg fun hat => hcb (hnew c hat)] at husers
      rw [hother c hcb, hpins c hcb]
      omega
  · intro q c hq
    rw [hreq]
    split_ifs with heq
    · obtain ⟨rfl, rfl⟩ := heq
      rw [Uses, hself, hpcp] at hq
      exact hr.mpr hq
    · exact h.requested q c ((huses q c heq).mp hq)
  · intro q c blk hq
    rw [hreq] at hq
    split_ifs at hq with heq
    · obtain ⟨rfl, rfl⟩ := heq
      rw [Uses, hself, hpcp]
      exact ⟨hr.mp (by rw [hq]; rfl), hdev blk hq⟩
    · obtain ⟨hq, hc, hcdev⟩ := h.request q c blk hq
      exact ⟨(huses q c heq).mpr hq, (hkeep q c hq).trans hc, hcdev⟩
  · intro q c hq
    rcases eq_or_ne q p with rfl | hqp
    · rw [hpcp] at hq
      obtain rfl := hnew c (.inr hq)
      rw [hself]
      exact hreleasing hq
    · rw [hpc, Function.update_of_ne hqp] at hq
      rcases eq_or_ne c b with rfl | hc
      · rw [hself]
        exact fun heq => h.releasing q c hq ((hlock q hqp).mp heq)
      · rw [hother c hc]
        exact h.releasing q c hq

/-- The same for a process that uses the buffer afterwards if it did before. -/
lemma change_of_uses (h : Cache s) {x : Buf P} (pc : Pc) (hlinks : s'.links = s.links)
    (hbuf : s'.buf = Function.update s.buf b x) (hpc : s'.pc = Function.update s.pc p pc)
    (hrequest : s'.request = s.request) (hpins : ∀ c, c ≠ b → s'.pins c = s.pins c)
    (hold : ∀ c, (s.pc p).At c → c = b) (hnew : ∀ c, pc.At c → c = b)
    (hlock : ∀ q, q ≠ p → (x.lock = some q ↔ (s.buf b).lock = some q))
    (hblock : x.block = (s.buf b).block) (huses : x.lock = some p ∨ pc.At b ↔ s.Uses p b)
    (hreleasing : pc = .releasing b → x.lock ≠ some p)
    (hrefcnt : x.refcnt + (if (s.buf b).lock.isSome then 1 else 0) +
        (if (s.pc p).At b then 1 else 0) + s.pins b =
      (s.buf b).refcnt + (if x.lock.isSome then 1 else 0) + (if pc.At b then 1 else 0) +
        s'.pins b) : Cache s' := by
  refine h.change pc (r := s.request p b) (hlinks ▸ h.listed) hbuf hpc (by simp [hrequest]) hpins
    hold hnew hlock (.inl hblock) ?_ ?_ hreleasing hrefcnt
  · rw [huses]
    refine ⟨fun hr => ?_, h.requested p b⟩
    obtain ⟨block, hr⟩ := Option.isSome_iff_exists.mp hr
    exact (h.request p b block hr).1
  · intro block hr
    rw [hblock]
    exact (h.request p b block hr).2

/-- A process asks for a block, and the buffer is the one that has it, or one without users. -/
lemma use (h : Cache s) (hp : s.pc p = .idle) (hdev : block.dev ≠ 0) {x : Buf P}
    (hlock : x.lock = (s.buf b).lock) (hblock : x.block = block)
    (hrefcnt : x.refcnt = (s.buf b).refcnt + 1)
    (hnew : (s.buf b).block = block ∨ (s.buf b).refcnt = 0 ∧ ∀ c, (s.buf c).block ≠ block) :
    Cache (((s.setBuf b x).setPc p (.waiting b)).setRequest p b (some block)) := by
  refine h.change (.waiting b) h.listed rfl rfl rfl (fun _ _ => rfl) ?_ ?_ ?_ ?_ ?_ ?_ ?_ ?_
  · simp [hp, Pc.At]
  · simp [Pc.At, eq_comm]
  · simp [hlock]
  · rw [hblock, eq_comm]
    exact hnew
  · simp [Pc.At]
  · rintro _ ⟨⟩
    exact ⟨hblock, hdev⟩
  · exact Pc.noConfusion
  · simp [hp, Pc.At, hlock, hrefcnt, setRequest, setPc, setBuf]
    ring

lemma bget (h : Cache s) (hp : s.pc p = .idle) (hdev : block.dev ≠ 0)
    (hs' : bget s p block = .ok s') :
    Cache s' := by
  unfold Bio.bget at hs'
  split at hs'
  · next b hb =>
    cases hs'
    exact h.use hp hdev rfl (h.findCached_some hb) rfl (.inl (h.findCached_some hb))
  · next hnone =>
    split at hs'
    · next b hb =>
      cases hs'
      have hzero := h.findUnused_some hb
      exact h.use hp hdev rfl rfl (by rw [hzero]; rfl) (.inr ⟨hzero, h.findCached_none hnone⟩)
    · cases hs'

/-- The process that waits gets the sleep lock. -/
lemma acquiresleep (h : Cache s) (hp : s.pc p = .waiting b) (hb : (s.buf b).lock = none) :
    Cache ((s.setBuf b { s.buf b with lock := some p }).setPc p (.reading b)) := by
  refine h.change_of_uses (.reading b) rfl rfl rfl rfl (fun _ _ => rfl) ?_ ?_ ?_ rfl ?_ ?_ ?_
  · simp [hp, Pc.At, eq_comm]
  · simp [Pc.At]
  · exact fun q hq => by simp [hb, hq.symm]
  · simp [Uses, hp]
  · exact Pc.noConfusion
  · simp [hp, hb, Pc.At, setPc, setBuf]

/-- The process gives up the sleep lock in `brelse`. -/
lemma releasesleep (h : Cache s) (hp : s.pc p = .idle) (hb : (s.buf b).lock = some p) :
    Cache ((s.setBuf b { s.buf b with lock := none }).setPc p (.releasing b)) := by
  refine h.change_of_uses (.releasing b) rfl rfl rfl rfl (fun _ _ => rfl) ?_ ?_ ?_ rfl ?_ ?_ ?_
  · simp [hp, Pc.At]
  · simp [Pc.At, eq_comm]
  · exact fun q hq => by simp [hb, hq.symm]
  · simp [Uses, hb, Pc.At]
  · exact fun _ => (Option.some_ne_none p).symm
  · simp [hp, hb, Pc.At, setPc, setBuf]

/-- The process is done with the disk. -/
lemma read (h : Cache s) (hp : s.pc p = .reading b) :
    Cache ((s.setBuf b { s.buf b with valid := true }).setPc p .idle) := by
  refine h.change_of_uses .idle rfl rfl rfl rfl (fun _ _ => rfl) ?_ ?_ (fun _ _ => Iff.rfl) rfl ?_
    Pc.noConfusion ?_
  · simp [hp, Pc.At]
  · simp [Pc.At]
  · simp [Uses, hp, Pc.At]
  · simp [hp, Pc.At, setPc, setBuf]

/-- The second part of `brelse`. -/
lemma unref (h : Cache s) (hp : s.pc p = .releasing b) : Cache (unref s p b) := by
  have hlisted : Listed (Bio.unref s p b).links := by
    unfold Bio.unref
    dsimp only
    split_ifs
    · exact h.listed.move b
    · exact h.listed
  refine h.change (b := b) (p := p) .idle (x := { s.buf b with refcnt := (s.buf b).refcnt - 1 })
    (r := none) hlisted ?_ ?_ ?_ ?_ ?_ ?_ (fun _ _ => Iff.rfl) (.inl rfl) ?_ ?_
    Pc.noConfusion ?_
  iterate 3
    unfold Bio.unref
    dsimp only
    split_ifs <;> rfl
  · intro c _
    unfold Bio.unref
    dsimp only
    split_ifs <;> rfl
  · simp [hp, Pc.At, eq_comm]
  · simp [Pc.At]
  · simp [Pc.At, h.releasing p b hp]
  · exact fun _ hr => absurd hr.symm (Option.some_ne_none _)
  · have hpins : (Bio.unref s p b).pins b = s.pins b := by
      unfold Bio.unref
      dsimp only
      split_ifs <;> rfl
    simp [hp, Pc.At, hpins]
    ring

/-- The counter changes with the pins. -/
lemma pin (h : Cache s) (hp : s.pc p = .idle) {r : ℤ} {n : ℕ}
    (hr : r - (s.buf b).refcnt = (n : ℤ) - s.pins b) :
    Cache { s.setBuf b { s.buf b with refcnt := r } with pins := Function.update s.pins b n } := by
  refine h.change_of_uses (p := p) .idle rfl rfl ?_ rfl ?_ ?_ ?_ (fun _ _ => Iff.rfl) rfl ?_
    Pc.noConfusion ?_
  · rw [← hp, Function.update_eq_self]
    rfl
  · exact fun c hc => Function.update_of_ne hc ..
  · simp [hp, Pc.At]
  · simp [Pc.At]
  · simp [Uses, hp, Pc.At]
  · simp only [hp, Pc.At, Function.update_self]
    split_ifs <;> omega

lemma step (h : Cache s) {e : Event P} (hclean : Clean s e) (hs' : step s e = some (.ok s')) :
    Cache s' := by
  cases e with
  | bread p block =>
    simp only [Bio.step] at hs'
    split_ifs at hs' with hp
    exact h.bget hp hclean (Option.some.inj hs')
  | acquiresleep p =>
    simp only [Bio.step] at hs'
    split at hs'
    · next hp =>
      split_ifs at hs' with hlock
      cases hs'
      exact h.acquiresleep hp (Option.isNone_iff_eq_none.mp hlock)
    · cases hs'
  | read p =>
    simp only [Bio.step] at hs'
    split at hs'
    · next hp =>
      cases hs'
      exact h.read hp
    · cases hs'
  | brelse p b =>
    simp only [Bio.step] at hs'
    split_ifs at hs' with hp hlock
    · cases hs'
      exact h.releasesleep hp hlock
    · cases hs'
  | unref p =>
    simp only [Bio.step] at hs'
    split at hs'
    · next hp =>
      cases hs'
      exact h.unref hp
    · cases hs'
  | bpin p b =>
    simp only [Bio.step] at hs'
    split_ifs at hs' with hp
    cases hs'
    exact h.pin hp (by push_cast; ring)
  | bunpin p b =>
    simp only [Bio.step] at hs'
    split_ifs at hs' with hp
    cases hs'
    have hpos : 0 < s.pins b := hclean
    exact h.pin hp (by omega)

lemma of_reachable (h : (machine P).ReachableBy Clean s) : Cache s := by
  refine h.invariant ?_ ?_
  · rintro s ⟨m, rfl⟩
    exact of_boot m
  · intro s e s' hs hclean hnext
    obtain ⟨r, hr, hok⟩ := Option.bind_eq_some_iff.mp hnext
    cases r with
    | error x => cases hok
    | ok t =>
      obtain rfl := Option.some.inj hok
      exact hs.step hclean hr

end Cache

/-! ### The representation -/

/-- What the state of the cache represents. -/
structure Represented (s : State P) : Prop where
  /-- The list is a circle through the head that contains each buffer exactly once. -/
  listed : Listed s.links
  inverse : ∀ x, s.links.prev (s.links.next x) = x ∧ s.links.next (s.links.prev x) = x
  unique : ∀ b c, (s.buf b).block.dev ≠ 0 → (s.buf b).block = (s.buf c).block → b = c
  /-- A counter is the number of users plus the pins; in particular it never underflows. -/
  refcnt : ∀ b, (s.buf b).refcnt = s.users b + s.pins b
  /-- A process that uses a buffer has asked for the block that it holds. -/
  request : ∀ p b, s.Uses p b → s.request p b = some (s.buf b).block
  /-- Two users of one block share one buffer. -/
  shared : ∀ p q b c, s.Uses p b → s.Uses q c → s.request p b = s.request q c → b = c

lemma Cache.represented (h : Cache s) : Represented s := by
  have hrequest : ∀ p b, s.Uses p b → s.request p b = some (s.buf b).block ∧
    (s.buf b).block.dev ≠ 0 := by
    intro p b hp
    obtain ⟨block, hblock⟩ := Option.isSome_iff_exists.mp (h.requested p b hp)
    obtain ⟨-, hb, hdev⟩ := h.request p b block hblock
    rw [hb]
    exact ⟨hblock, hdev⟩
  refine ⟨h.listed, ?_, h.unique, h.refcnt, fun p b hp => (hrequest p b hp).1, ?_⟩
  · obtain ⟨l, hl, hcircle⟩ := h.listed
    intro x
    have hx : x ∈ none :: l.map some := by
      cases x with
      | none => exact List.mem_cons_self
      | some b =>
        exact List.mem_cons_of_mem _ (List.mem_map_of_mem (hl.mem_iff.mpr (List.mem_finRange b)))
    exact ⟨hcircle.prev_next hx, hcircle.next_prev hx⟩
  · intro p q b c hp hq heq
    rw [(hrequest p b hp).1, (hrequest q c hq).1] at heq
    exact h.unique b c (hrequest p b hp).2 (Option.some.inj heq)

variable [DecidableEq P]

/-- A buffer whose counter is positive keeps its block in every step. -/
lemma Cache.block_eq (h : Cache s) {e : Event P} (hs' : Bio.step s e = some (.ok s'))
    (hb : 0 < (s.buf b).refcnt) : (s'.buf b).block = (s.buf b).block := by
  -- what a step does to the buffers
  have hset : ∀ (c : Fin NBUF) (x : Buf P), x.block = (s.buf c).block →
      (Function.update s.buf c x b).block = (s.buf b).block := by
    intro c x hx
    rcases eq_or_ne b c with rfl | hbc
    · rw [Function.update_self, hx]
    · rw [Function.update_of_ne hbc]
  cases e with
  | bread p block =>
    simp only [Bio.step] at hs'
    split_ifs at hs'
    have hbget := Option.some.inj hs'
    unfold Bio.bget at hbget
    split at hbget
    · cases hbget
      exact hset _ _ rfl
    · split at hbget
      · next c hc =>
        cases hbget
        have hbc : b ≠ c := by
          rintro rfl
          exact hb.ne' (h.findUnused_some hc)
        exact congrArg Buf.block (Function.update_of_ne hbc ..)
      · cases hbget
  | acquiresleep p =>
    simp only [Bio.step] at hs'
    split at hs'
    · split_ifs at hs'
      cases hs'
      exact hset _ _ rfl
    · cases hs'
  | read p =>
    simp only [Bio.step] at hs'
    split at hs'
    · cases hs'
      exact hset _ _ rfl
    · cases hs'
  | brelse p c =>
    simp only [Bio.step] at hs'
    split_ifs at hs'
    · cases hs'
      exact hset _ _ rfl
    · cases hs'
  | unref p =>
    simp only [Bio.step] at hs'
    split at hs'
    · cases hs'
      unfold Bio.unref
      dsimp only
      split_ifs <;> exact hset _ _ rfl
    · cases hs'
  | bpin p c =>
    simp only [Bio.step] at hs'
    split_ifs at hs'
    cases hs'
    exact hset _ _ rfl
  | bunpin p c =>
    simp only [Bio.step] at hs'
    split_ifs at hs'
    cases hs'
    exact hset _ _ rfl

/-- In every run the cache is represented as it should be, and no buffer with a positive counter
changes its block. -/
theorem cache_representation (h : (machine P).ReachableBy Clean s) :
    Represented s ∧ ∀ e s' b, (machine P).next s e = some s' → 0 < (s.buf b).refcnt →
      (s'.buf b).block = (s.buf b).block := by
  have hcache := Cache.of_reachable h
  refine ⟨hcache.represented, ?_⟩
  intro e s' b hnext hb
  obtain ⟨r, hr, hok⟩ := Option.bind_eq_some_iff.mp hnext
  cases r with
  | error x => cases hok
  | ok t =>
    obtain rfl := Option.some.inj hok
    exact hcache.block_eq hr hb

/-- Process 0 holds block 7 and has pinned it, and process 1 waits for it. -/
def shared : State (Fin 2) :=
  ((machine (Fin 2)).execBy Clean (boot ⟨id, id⟩)
    [.bread 0 ⟨1, 7⟩, .acquiresleep 0, .read 0, .bpin 0 ⟨0, by decide⟩, .bread 1 ⟨1, 7⟩]).get
      (by decide +kernel)

theorem cache_representation_shared : (machine (Fin 2)).ReachableBy Clean shared ∧
    (shared.buf ⟨0, by decide⟩).refcnt = 3 ∧ Represented shared := by
  have hreach : (machine (Fin 2)).ReachableBy Clean shared :=
    .of_execBy (.init ⟨_, rfl⟩) (Option.some_get _).symm
  exact ⟨hreach, by decide +kernel, (cache_representation hreach).1⟩

end Xv6.Bio
