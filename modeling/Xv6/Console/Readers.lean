import Xv6.Console.Discipline

/-!
# The readers of the console

What the reads have got and returned, in runs in which the copies to the readers succeed and no
reader is killed.
-/

namespace Xv6.Console

open Core State

variable {P : Type} {s s' : State P} {p q : P} {c : Read} {n : ℕ}

/-- The read that a process is in, with the bytes to go. -/
def Pc.call : Pc → Option (Read × ℕ)
  | .reading c n | .asleep c n | .woken c n => some (c, n)
  | .out => none

/-- The bytes that a read got. -/
def State.bytes (s : State P) (id : ℕ) : List UInt8 := (s.taken.filter (·.1 = id)).map Prod.snd

/-- Reads ask for something, from processes that are not killed, to memory that can be written. -/
def Served (s : State P) : Event P → Prop
  | .read p dst n => 0 < n ∧ (∀ i < n, dst i = true) ∧ s.killed p = false
  | .kill p => (s.pc p).call.isNone
  | .intr _ | .step _ => True

instance (s : State P) (ev : Event P) : Decidable (Served s ev) :=
  match ev with
  | .read _ _ _ => inferInstanceAs (Decidable (_ ∧ _ ∧ _))
  | .kill p => inferInstanceAs (Decidable ((s.pc p).call.isNone = true))
  | .intr _ | .step _ => .isTrue trivial

/-- What is known of a read that goes on. -/
structure Active (s : State P) (p : P) (c : Read) (n : ℕ) : Prop where
  id_lt : c.id < s.next
  target : 0 < c.target
  length : (s.bytes c.id).length + n = c.target
  returned : ∀ x ∈ s.returned, x.1 ≠ c.id
  dst : ∀ i < c.target, c.dst i = true
  alive : s.killed p = false

/-- The reads, against the characters consumed. -/
structure Readers (s : State P) : Prop where
  taken_lt : ∀ x ∈ s.taken, x.1 < s.next
  returned_lt : ∀ x ∈ s.returned, x.1 < s.next
  active : ∀ p c n, (s.pc p).call = some (c, n) → Active s p c n
  unique : ∀ p q c m d n, (s.pc p).call = some (c, m) → (s.pc q).call = some (d, n) →
    c.id = d.id → p = q
  taken : s.taken.map Prod.snd = s.consumed.filter (· ≠ controlD)
  eof : s.returned.countP (·.2 = 0) = s.consumed.count controlD
  result : ∀ x ∈ s.returned, x.2 = (s.bytes x.1).length

namespace Readers

/-- Nothing is read, and processes stay in their reads. -/
lemma of_pc (h : Readers s) {lock : Option P} {pc : P → Pc} {killed : P → Bool}
    (hpc : ∀ p, (pc p).call = (s.pc p).call)
    (hkilled : ∀ p c n, (s.pc p).call = some (c, n) → s.killed p = false → killed p = false) :
    Readers { s with lock := lock, pc := pc, killed := killed } := by
  refine ⟨h.taken_lt, h.returned_lt, ?_, ?_, h.taken, h.eof, h.result⟩
  · intro p c n hp
    rw [hpc p] at hp
    have ha := h.active p c n hp
    exact { ha with alive := hkilled p c n hp ha.alive }
  · intro p q c m d n hp hq
    rw [hpc] at hp hq
    exact h.unique p q c m d n hp hq

/-- What is typed and committed is not looked at. -/
lemma of_typed (h : Readers s) {buf : ℕ → UInt8} {w e : UInt32} {typed committed : List UInt8} :
    Readers { s with buf := buf, w := w, e := e, typed := typed, committed := committed } :=
  { h with active := fun p c n hp => { h.active p c n hp with } }

lemma killLine (h : Readers s) (k : ℕ) : Readers (killLine k s) := by
  induction k generalizing s with
  | zero => exact h
  | succ k ih =>
    unfold Console.killLine
    split_ifs
    · exact ih h.of_typed
    · exact h

lemma call_wakeup (q : P) : (s.wakeup.pc q).call = (s.pc q).call := by
  unfold wakeup
  dsimp only
  split
  · next hq => rw [hq]; rfl
  · rfl

lemma input (h : Readers s) (ch : ℤ) : Readers (input s ch) := by
  unfold Console.input
  dsimp only
  split_ifs
  · exact (h.of_pc call_wakeup fun _ _ _ _ hp => hp).of_typed
  · exact h.of_typed

/-- The interrupt handler only wakes up. -/
lemma consoleintr (h : Readers s) (ch : ℤ) : Readers (consoleintr s ch) := by
  unfold Console.consoleintr
  split
  · exact h
  split
  · exact h.killLine _
  split
  · split_ifs
    · exact h.of_typed
    · exact h
  split
  · exact h.input _
  · exact h

variable [DecidableEq P]

lemma call_update {x : Pc} (hx : x.call = (s.pc p).call) (q : P) :
    (Function.update s.pc p x q).call = (s.pc q).call := by
  rcases eq_or_ne q p with rfl | hqp
  · rwa [Function.update_self]
  · rw [Function.update_of_ne hqp]

/-- The read of a process ends, with the number of its bytes; what it consumed without copying is a
control-D exactly if that is zero. -/
lemma returnRead (h : Readers s) (hp : (s.pc p).call = some (c, n)) (r : UInt32) {l : List UInt8}
    {v : ℤ} (hv : v = (c.target : ℤ) - n)
      (hl : l.filter (· ≠ controlD) = s.consumed.filter (· ≠ controlD))
    (hcount : l.count controlD = s.consumed.count controlD + if v = 0 then 1 else 0) :
    Readers ({ s with r := r, consumed := l }.returnRead p c v) := by
  have ha := h.active p c n hp
  have hother : ∀ q d m, (Function.update s.pc p .out q).call = some (d, m) →
      q ≠ p ∧ (s.pc q).call = some (d, m) := by
    intro q d m hq
    rcases eq_or_ne q p with rfl | hqp
    · rw [Function.update_self] at hq
      cases hq
    · rw [Function.update_of_ne hqp] at hq
      exact ⟨hqp, hq⟩
  refine ⟨h.taken_lt, ?_, ?_, ?_, ?_, ?_, ?_⟩
  · intro x hx
    rcases List.mem_append.mp hx with hx | hx
    · exact h.returned_lt x hx
    · rw [List.mem_singleton.mp hx]
      exact ha.id_lt
  · intro q d m hq
    obtain ⟨hqp, hq'⟩ := hother q d m hq
    have hd := h.active q d m hq'
    refine ⟨hd.id_lt, hd.target, hd.length, ?_, hd.dst, hd.alive⟩
    intro x hx
    rcases List.mem_append.mp hx with hx | hx
    · exact hd.returned x hx
    · rw [List.mem_singleton.mp hx]
      exact fun heq => hqp (h.unique q p d m c n hq' hp heq.symm)
  · intro q q' d m d' m' hq hq'
    exact h.unique q q' d m d' m' (hother q d m hq).2 (hother q' d' m' hq').2
  · exact h.taken.trans hl.symm
  · show (s.returned ++ [(c.id, v)]).countP (·.2 = 0) = l.count controlD
    rw [List.countP_append, h.eof, hcount, List.countP_singleton]
    simp only [decide_eq_true_eq]
  · intro x hx
    rcases List.mem_append.mp hx with hx | hx
    · exact h.result x hx
    · rw [List.mem_singleton.mp hx, hv, ← ha.length]
      show _ = ((s.bytes c.id).length : ℤ)
      push_cast
      omega

/-- A read gets a byte. -/
lemma take (h : Readers s) (hp : (s.pc p).call = some (c, n)) (hn : 0 < n) (r : UInt32) {ch : UInt8}
    (hch : ch ≠ controlD) :
    Readers ({ s with
        r := r
        consumed := s.consumed ++ [ch]
        taken := s.taken ++ [(c.id, ch)] }.setPc p (.reading c (n - 1))) := by
  have ha := h.active p c n hp
  generalize hs' : ({ s with
      r := r
      consumed := s.consumed ++ [ch]
      taken := s.taken ++ [(c.id, ch)] } : State P).setPc p (.reading c (n - 1)) = s'
  have hself : (s'.bytes c.id).length = (s.bytes c.id).length + 1 := by
    simp [← hs', State.bytes, setPc, List.filter_append]
  have hbytes : ∀ id, id ≠ c.id → s'.bytes id = s.bytes id := by
    intro id hid
    simp [← hs', State.bytes, setPc, List.filter_append, hid.symm]
  have hpc : s'.pc = Function.update s.pc p (.reading c (n - 1)) := by rw [← hs', setPc]
  have hcases : ∀ q d m, (s'.pc q).call = some (d, m) →
      (q = p ∧ d = c ∧ m = n - 1) ∨ (q ≠ p ∧ (s.pc q).call = some (d, m)) := by
    intro q d m hq
    rw [hpc] at hq
    rcases eq_or_ne q p with rfl | hqp
    · rw [Function.update_self] at hq
      cases hq
      exact .inl ⟨rfl, rfl, rfl⟩
    · rw [Function.update_of_ne hqp] at hq
      exact .inr ⟨hqp, hq⟩
  have hreturned : s'.returned = s.returned := by rw [← hs', setPc]
  have hnext : s'.next = s.next := by rw [← hs', setPc]
  have hkilled : s'.killed = s.killed := by rw [← hs', setPc]
  refine ⟨?_, ?_, ?_, ?_, ?_, ?_, ?_⟩
  · intro x hx
    rw [hnext]
    rw [← hs', setPc] at hx
    rcases List.mem_append.mp hx with hx | hx
    · exact h.taken_lt x hx
    · rw [List.mem_singleton.mp hx]
      exact ha.id_lt
  · rw [hreturned, hnext]
    exact h.returned_lt
  · intro q d m hq
    rcases hcases q d m hq with ⟨rfl, rfl, rfl⟩ | ⟨hqp, hq'⟩
    · refine ⟨hnext ▸ ha.id_lt, ha.target, ?_, hreturned ▸ ha.returned, ha.dst, hkilled ▸ ha.alive⟩
      rw [hself, ← ha.length]
      omega
    · have hd := h.active q d m hq'
      refine ⟨hnext ▸ hd.id_lt, hd.target, ?_, hreturned ▸ hd.returned, hd.dst, hkilled ▸ hd.alive⟩
      rw [hbytes d.id fun heq => hqp (h.unique q p d m c n hq' hp heq)]
      exact hd.length
  · -- every process is in the read that it was in
    have hsame : ∀ q d m, (s'.pc q).call = some (d, m) → ∃ k, (s.pc q).call = some (d, k) := by
      intro q d m hq
      rcases hcases q d m hq with ⟨rfl, rfl, rfl⟩ | ⟨-, hq'⟩
      · exact ⟨n, hp⟩
      · exact ⟨m, hq'⟩
    intro q q' d m d' m' hq hq' heq
    obtain ⟨k, hk⟩ := hsame q d m hq
    obtain ⟨k', hk'⟩ := hsame q' d' m' hq'
    exact h.unique q q' d k d' k' hk hk' heq
  · rw [← hs']
    show (s.taken ++ [(c.id, ch)]).map Prod.snd = (s.consumed ++ [ch]).filter (· ≠ controlD)
    rw [List.map_append, List.filter_append, h.taken]
    simp [hch]
  · rw [hreturned, h.eof, ← hs']
    show _ = (s.consumed ++ [ch]).count controlD
    rw [List.count_append, List.count_singleton]
    simp [hch]
  · intro x hx
    rw [hreturned] at hx
    rw [hbytes x.1 (ha.returned x hx)]
    exact h.result x hx

/-- The end of file is only given to a read that has got nothing. -/
lemma readChar (h : Readers s) (hp : s.pc p = .reading c n) (hn : 0 < n) :
    Readers (readChar s p c n) := by
  have hcall : (s.pc p).call = some (c, n) := by rw [hp]; rfl
  have ha := h.active p c n hcall
  have hle : n ≤ c.target := by
    rw [← ha.length]
    exact Nat.le_add_left _ _
  unfold Console.readChar
  dsimp only
  split_ifs with hD htarget hdst hnewline
  · have hv : (c.target : ℤ) - n ≠ 0 := by omega
    rw [List.dropLast_concat]
    exact h.returnRead hcall _ rfl rfl (by rw [if_neg hv, add_zero])
  · have hv : (c.target : ℤ) - n = 0 := by omega
    refine h.returnRead hcall _ rfl ?_ ?_
    · rw [List.filter_append, hD]
      simp
    · rw [if_pos hv, List.count_append, hD, List.count_singleton]
      simp
  · have htake := h.take hcall hn (s.r + 1) hD
    have hv : ((c.target : ℤ) - ((n - 1 : ℕ) : ℤ)) ≠ 0 := by omega
    have hcall' : (Function.update s.pc p (.reading c (n - 1)) p).call = some (c, n - 1) := by
      rw [Function.update_self]
      rfl
    have hreturn := htake.returnRead hcall' (s.r + 1) rfl rfl (by rw [if_neg hv, add_zero])
    simpa [State.returnRead, setPc, Function.update_idem] using hreturn
  · exact h.take hcall hn (s.r + 1) hD
  · refine absurd (ha.dst _ ?_) hdst
    omega

lemma next (h : Readers s) {ev : Event P} (hserved : Served s ev) (hnext : next s ev = some s') :
    Readers s' := by
  cases ev with
  | intr ch =>
    simp only [Console.next] at hnext
    split_ifs at hnext
    cases hnext
    exact h.consoleintr ch
  | read p dst n =>
    obtain ⟨hn, hdst, halive⟩ := hserved
    simp only [Console.next] at hnext
    split at hnext
    · next hp _ =>
      cases hnext
      have hcases : ∀ q d m, (Function.update s.pc p (.reading ⟨s.next, dst, n⟩ n) q).call =
          some (d, m) →
          (q = p ∧ d = ⟨s.next, dst, n⟩ ∧ m = n) ∨ (s.pc q).call = some (d, m) := by
        intro q d m hq
        rcases eq_or_ne q p with rfl | hqp
        · rw [Function.update_self] at hq
          cases hq
          exact .inl ⟨rfl, rfl, rfl⟩
        · rw [Function.update_of_ne hqp] at hq
          exact .inr hq
      have hnone : s.bytes s.next = [] := by
        rw [State.bytes, List.map_eq_nil_iff, List.filter_eq_nil_iff]
        intro x hx
        simpa using (h.taken_lt x hx).ne
      refine ⟨?_, ?_, ?_, ?_, h.taken, h.eof, h.result⟩
      · exact fun x hx => Nat.lt_succ_of_lt (h.taken_lt x hx)
      · exact fun x hx => Nat.lt_succ_of_lt (h.returned_lt x hx)
      · intro q d m hq
        rcases hcases q d m hq with ⟨rfl, rfl, rfl⟩ | hq'
        · refine ⟨Nat.lt_succ_self _, hn, ?_, fun x hx => (h.returned_lt x hx).ne, hdst, halive⟩
          show (s.bytes s.next).length + m = m
          rw [hnone, List.length_nil, Nat.zero_add]
        · have hd := h.active q d m hq'
          exact ⟨Nat.lt_succ_of_lt hd.id_lt, hd.target, hd.length, hd.returned, hd.dst, hd.alive⟩
      · intro q q' d m d' m' hq hq' heq
        rcases hcases q d m hq with ⟨rfl, rfl, rfl⟩ | hold <;>
          rcases hcases q' d' m' hq' with ⟨rfl, rfl, rfl⟩ | hold'
        · rfl
        · exact absurd heq.symm (h.active q' d' m' hold').id_lt.ne
        · exact absurd heq (h.active q d m hold).id_lt.ne
        · exact h.unique q q' d m d' m' hold hold' heq
    · cases hnext
  | step p =>
    simp only [Console.next] at hnext
    split at hnext
    · next c n hp =>
      have hcall : (s.pc p).call = some (c, n) := by rw [hp]; rfl
      cases hnext
      unfold readRound
      split_ifs with hn hempty hkilled
      · rw [(h.active p c n hcall).alive] at hkilled
        cases hkilled
      · exact h.of_pc (call_update (x := .asleep c n) hcall.symm) fun _ _ _ _ hp => hp
      · exact h.readChar hp hn
      · have hv : (c.target : ℤ) - n ≠ 0 := by
          have := (h.active p c n hcall).target
          omega
        exact h.returnRead hcall s.r rfl rfl (by rw [if_neg hv, add_zero])
    · next c n hp =>
      split_ifs at hnext
      cases hnext
      have hcall : (s.pc p).call = some (c, n) := by rw [hp]; rfl
      exact h.of_pc (call_update (x := .reading c n) hcall.symm) fun _ _ _ _ hp => hp
    · cases hnext
    · cases hnext
  | kill p =>
    cases hnext
    have hout : (s.pc p).call = none := Option.isNone_iff_eq_none.mp hserved
    refine h.of_pc (call_update ?_) ?_
    · split
      · next hq => rw [hq]; rfl
      · rfl
    · intro q c n hq hkilled
      have hqp : q ≠ p := by
        rintro rfl
        rw [hout] at hq
        cases hq
      exact (Function.update_of_ne hqp ..).trans hkilled

end Readers

/-! ### Reads one after another -/

section Sorted

variable {α : Type} {l : List (ℕ × α)}

lemma filter_lt_succ (hsorted : (l.map Prod.fst).Pairwise (· ≤ ·)) (m : ℕ) :
    l.filter (·.1 < m + 1) = l.filter (·.1 < m) ++ l.filter (·.1 = m) := by
  induction l with
  | nil => rfl
  | cons x l ih =>
    rw [List.map_cons, List.pairwise_cons] at hsorted
    have hge : ∀ y ∈ l, x.1 ≤ y.1 := fun y hy => hsorted.1 y.1 (List.mem_map_of_mem hy)
    rcases lt_or_ge x.1 m with hlt | hxm
    · rw [List.filter_cons_of_pos (by simpa using hlt.le),
        List.filter_cons_of_pos (by simpa using hlt),
        List.filter_cons_of_neg (by simpa using hlt.ne), ih hsorted.2, List.cons_append]
    · -- from here on there is nothing below
      have hnone : l.filter (·.1 < m) = [] := by
        rw [List.filter_eq_nil_iff]
        intro y hy
        simpa using hxm.trans (hge y hy)
      have hnone' : (x :: l).filter (·.1 < m) = [] := by
        rw [List.filter_cons_of_neg (by simpa using hxm), hnone]
      have hiff : x.1 < m + 1 ↔ x.1 = m := ⟨fun h => by omega, fun h => by omega⟩
      rw [hnone', List.nil_append, List.filter_cons, List.filter_cons, ih hsorted.2, hnone,
        List.nil_append]
      simp only [hiff]

/-- Entries whose numbers do not decrease are the concatenation of those of each number. -/
lemma flatMap_filter_of_sorted (hsorted : (l.map Prod.fst).Pairwise (· ≤ ·)) {m : ℕ}
    (hlt : ∀ x ∈ l, x.1 < m) : (List.range m).flatMap (fun id => l.filter (·.1 = id)) = l := by
  have hbelow : ∀ k, (List.range k).flatMap (fun id => l.filter (·.1 = id)) =
    l.filter (·.1 < k) := by
    intro k
    induction k with
    | zero => simp
    | succ k ih =>
      rw [List.range_succ, List.flatMap_append, ih, filter_lt_succ hsorted]
      simp
  rw [hbelow, List.filter_eq_self]
  intro x hx
  simpa using hlt x hx

end Sorted

/-! ### The whole console -/

/-- The line discipline, in a state. -/
structure LineDiscipline (s : State P) : Prop where
  /-- The write index is between the read index and the edit index. -/
  w_le_e : (s.w - s.r).toNat ≤ (s.e - s.r).toNat
  e_le : (s.e - s.r).toNat ≤ INPUT_BUF
  /-- A full buffer can be read. -/
  full : (s.e - s.r).toNat = INPUT_BUF → s.w = s.e
  /-- Committed characters are never erased. -/
  committed : s.committed <+: s.typed
  uncommitted : s.typed.length = s.committed.length + (s.e - s.w).toNat
  /-- The buffer holds the committed characters that were not consumed yet. -/
  consumed : s.consumed <+: s.committed
  pending : (List.range (s.w - s.r).toNat).map (fun k => s.buf ((s.r.toNat + k) % INPUT_BUF)) =
    s.committed.drop s.consumed.length
  /-- The readers get the committed stream without the marks. -/
  taken : s.taken.map Prod.snd = s.consumed.filter (· ≠ controlD)
  stream : s.taken.map Prod.snd <+: s.committed.filter (· ≠ controlD)
  /-- A read returns the number of bytes that it got. -/
  result : ∀ x ∈ s.returned, x.2 = (s.bytes x.1).length
  /-- A read of no bytes for each mark. -/
  eof : s.returned.countP (·.2 = 0) = s.consumed.count controlD
  /-- For reads that do not overlap, the stream is the concatenation of what each of them got. -/
  sequential : (s.taken.map Prod.fst).Pairwise (· ≤ ·) →
    s.taken.map Prod.snd = (List.range s.next).flatMap s.bytes

lemma LineDiscipline.of_indices (h : Indices s) (h' : Readers s) : LineDiscipline s := by
  have hr := h.consumed.length_le
  have hw := h.committed.length_le
  refine ⟨?_, ?_, ?_, h.committed, ?_, h.consumed, ?_, h'.taken, ?_, h'.result, h'.eof, ?_⟩
  · rw [h.w_sub_r, h.e_sub_r]
    omega
  · rw [h.e_sub_r]
    exact Nat.sub_le_of_le_add (by rw [Nat.add_comm]; exact h.ring.le_add)
  · rw [h.e_sub_r]
    intro hfull
    rw [h.w, h.e, h.full (by omega)]
  · rw [h.e_sub_w]
    omega
  · have hcontents := (h.ring.take hr).contents
    rw [← List.prefix_iff_eq_take.mp h.committed] at hcontents
    rw [h.w_sub_r, ← hcontents]
    refine List.map_congr_left fun k _ => ?_
    rw [h.r, Nat.add_mod, Counter.toNat_mod _ (by decide), ← Nat.add_mod]
  · rw [h'.taken]
    exact h.consumed.filter _
  · intro hsorted
    conv_lhs => rw [← flatMap_filter_of_sorted hsorted h'.taken_lt, List.map_flatMap]
    rfl

variable [DecidableEq P]

/-- In every run with reads that ask for something and are served, the console keeps its line
discipline, and the characters that erase take away only what is not committed. -/
theorem line_discipline (h : (machine P).ReachableBy Served s) :
    LineDiscipline s ∧ ∀ ch s', Erases ch → next s (.intr ch) = some s' → Erased s s' := by
  have hindices : Indices s := by
    refine h.invariant ?_ fun s e s' hs _ hnext => hs.next hnext
    intro s hs
    refine ⟨?_, ?_, ?_, ?_, ?_, ?_, ?_⟩
    · rw [hs.typed, hs.consumed]
      exact Ring.nil _ _
    · rw [hs.r, hs.consumed]
      rfl
    · rw [hs.w, hs.committed]
      rfl
    · rw [hs.e, hs.typed]
      rfl
    · rw [hs.consumed]
      exact List.nil_prefix
    · rw [hs.committed]
      exact List.nil_prefix
    · rw [hs.committed, hs.typed]
      exact fun _ => rfl
  have hreaders : Readers s := by
    refine h.invariant ?_ fun s e s' hs hserved hnext => hs.next hserved hnext
    intro s hs
    have hcall : ∀ p c n, (s.pc p).call ≠ some (c, n) := by
      intro p c n hp
      rw [hs.pc p] at hp
      cases hp
    refine ⟨?_, ?_, ?_, ?_, ?_, ?_, ?_⟩
    · simp [hs.taken]
    · simp [hs.returned]
    · exact fun p c n hp => absurd hp (hcall p c n)
    · exact fun p q c m d n hp => absurd hp (hcall p c m)
    · rw [hs.taken, hs.consumed]
      rfl
    · rw [hs.returned, hs.consumed]
      rfl
    · simp [hs.returned]
  refine ⟨.of_indices hindices hreaders, ?_⟩
  intro ch s' hch hnext
  simp only [Console.next] at hnext
  split_ifs at hnext
  cases hnext
  exact erased_consoleintr hindices hch

/-- The console at the start. -/
def fresh (P : Type) : State P where
  buf := fun _ => 0
  r := 0
  w := 0
  e := 0
  lock := none
  pc := fun _ => .out
  killed := fun _ => false
  typed := []
  committed := []
  consumed := []
  taken := []
  returned := []
  next := 0

lemma fresh_fresh : (machine P).init (fresh P) :=
  ⟨rfl, rfl, rfl, rfl, fun _ => rfl, rfl, rfl, rfl, rfl, rfl⟩

/-- A reader waits; `a`, `b`, a backspace and a control-D are typed. It gets the `a`, and the next
read gets the end of file. -/
def typedAndEnded : State Unit :=
  ((machine Unit).execBy Served (fresh _)
    [.read () (fun _ => true) 5, .step (), .intr 97, .intr 98, .intr 127, .intr 4,
      .step (), .step (),
      .step (), .read () (fun _ => true) 5, .step ()]).get (by decide +kernel)

theorem line_discipline_typedAndEnded : (machine Unit).ReachableBy Served typedAndEnded ∧
    typedAndEnded.taken = [(0, 97)] ∧ typedAndEnded.returned = [(0, 1), (1, 0)] ∧
    LineDiscipline typedAndEnded := by
  have hreach : (machine Unit).ReachableBy Served typedAndEnded :=
    .of_execBy (.init fresh_fresh) (Option.some_get _).symm
  exact ⟨hreach, by decide +kernel, by decide +kernel, (line_discipline hreach).1⟩

end Xv6.Console
