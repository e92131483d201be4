import Xv6.Pipe.Basic

/-!
# A pipe is a bounded queue

The counters are the lengths of what was appended and removed, modulo `2 ^ 32`, and the array holds
what was appended and not yet removed. Each call of `pipewrite` appends a beginning of its buffer.
-/

namespace Xv6.Pipes

open Core State

variable {P : Type} {s s' : State P} {p q : P} {c : Write} {i id : ℕ}

/-- The counters and the array, against what was appended and removed. -/
structure Fifo (s : State P) : Prop where
  ring : Ring PIPESIZE s.pipe.data (s.appended.map Prod.snd) s.removed.length
  nread : s.pipe.nread = .ofNat s.removed.length
  nwrite : s.pipe.nwrite = .ofNat s.appended.length
  removed : s.removed <+: s.appended.map Prod.snd

namespace Fifo

lemma length_le (h : Fifo s) : s.removed.length ≤ s.appended.length := by
  have := h.ring.start_le
  rwa [List.length_map] at this

lemma length_le_add (h : Fifo s) : s.appended.length ≤ s.removed.length + PIPESIZE := by
  have := h.ring.le_add
  rwa [List.length_map] at this

/-- The test of `pipewrite`. -/
lemma full_iff (h : Fifo s) : s.pipe.nwrite = s.pipe.nread + UInt32.ofNat PIPESIZE ↔
    s.appended.length = s.removed.length + PIPESIZE := by
  rw [h.nread, h.nwrite]
  exact Counter.eq_add_iff h.length_le h.length_le_add (by decide)

/-- The test of `piperead`. -/
lemma empty_iff (h : Fifo s) :
    s.pipe.nread = s.pipe.nwrite ↔ s.removed.length = s.appended.length := by
  have hle := h.length_le
  have hle' := h.length_le_add
  rw [h.nread, h.nwrite]
  apply Counter.eq_iff hle
  rw [PIPESIZE] at hle'
  omega

lemma append (h : Fifo s) (hfull : s.pipe.nwrite ≠ s.pipe.nread + UInt32.ofNat PIPESIZE) (c : Write)
    (ch : UInt8) : Fifo (s.append c ch) := by
  have hlt : s.appended.length < s.removed.length + PIPESIZE := by
    refine lt_of_le_of_ne h.length_le_add ?_
    exact fun heq => hfull (h.full_iff.mpr heq)
  have hplace : s.pipe.nwrite.toNat % PIPESIZE = (s.appended.map Prod.snd).length % PIPESIZE := by
    rw [h.nwrite, List.length_map]
    exact Counter.toNat_mod _ (by decide)
  have happended : (s.appended ++ [(c.id, ch)]).map Prod.snd = s.appended.map Prod.snd ++ [ch] :=
    List.map_append
  refine ⟨?_, h.nread, ?_, ?_⟩
  · simp only [State.append, happended, hplace]
    exact h.ring.push (by rwa [List.length_map]) ch
  · simp only [State.append, h.nwrite, List.length_append, List.length_singleton]
    exact Counter.succ _
  · simp only [State.append, happended]
    exact h.removed.trans (List.prefix_append _ _)

lemma remove (h : Fifo s) (hne : s.pipe.nread ≠ s.pipe.nwrite) : Fifo s.remove := by
  have hlt : s.removed.length < (s.appended.map Prod.snd).length := by
    rw [List.length_map]
    exact lt_of_le_of_ne h.length_le fun heq => hne (h.empty_iff.mpr heq)
  have hplace : s.pipe.nread.toNat % PIPESIZE = s.removed.length % PIPESIZE := by
    rw [h.nread]
    exact Counter.toNat_mod _ (by decide)
  have hfirst := h.ring.exists_get hlt
  rw [← hplace] at hfirst
  refine ⟨?_, ?_, h.nwrite, ?_⟩
  · simp only [State.remove, List.length_append, List.length_singleton]
    exact h.ring.pop hlt
  · simp only [State.remove, h.nread, List.length_append, List.length_singleton]
    exact Counter.succ _
  · -- the byte that is removed is the next one
    obtain ⟨t, ht⟩ := h.removed
    rw [← ht, List.getElem?_append_right le_rfl, Nat.sub_self] at hfirst
    cases t with
    | nil => cases hfirst
    | cons b t =>
      obtain rfl : b = s.pipe.data (s.pipe.nread.toNat % PIPESIZE) := by simpa using hfirst
      refine ⟨t, ?_⟩
      simp only [State.remove]
      rw [← ht, List.append_assoc]
      rfl

variable [DecidableEq P]

lemma writeRound (h : Fifo s) (p : P) (c : Write) (i : ℕ) : Fifo (writeRound s p c i) := by
  unfold Pipes.writeRound
  split_ifs with hi hopen hfull
  · exact { h with }
  · exact { h with }
  · split
    · exact { h with }
    · next ch _ => exact { h.append hfull c ch with }
  · exact { h with }

lemma copyRound (h : Fifo s) (p : P) (c : Read) (i : ℕ) : Fifo (copyRound s p c i) := by
  unfold Pipes.copyRound
  split_ifs with hi hdst
  · exact { h.remove hi.2 with }
  · exact { h.remove hi.2 with }
  · exact { h with }

lemma next (h : Fifo s) {e : Event P} (hnext : next s e = some s') : Fifo s' := by
  cases e with
  | write p src n =>
    simp only [Pipes.next] at hnext
    split at hnext
    · cases hnext
      exact { h with }
    · cases hnext
  | read p dst n =>
    simp only [Pipes.next] at hnext
    split at hnext
    · cases hnext
      exact { h with }
    · cases hnext
  | step p =>
    simp only [Pipes.next] at hnext
    split at hnext
    · cases hnext
      exact h.writeRound p _ _
    · cases hnext
      unfold Pipes.waitRound
      split_ifs <;> exact { h with }
    · cases hnext
      exact h.copyRound p _ _
    · split_ifs at hnext
      cases hnext
      exact { h with }
    · split_ifs at hnext
      cases hnext
      exact { h with }
    · cases hnext
    · cases hnext
    · cases hnext
  | close writable =>
    simp only [Pipes.next] at hnext
    split_ifs at hnext
    cases hnext
    unfold pipeclose
    split_ifs <;> exact { h with }
  | kill p =>
    cases hnext
    exact { h with }

lemma of_reachable (h : (machine P).Reachable s) : Fifo s := by
  refine h.invariant ?_ fun s e s' hs hnext => hs.next hnext
  intro s hs
  refine ⟨?_, ?_, ?_, ?_⟩
  · rw [hs.appended, hs.removed]
    exact Ring.nil _ _
  · rw [hs.nread, hs.removed]
    rfl
  · rw [hs.nwrite, hs.appended]
    rfl
  · rw [hs.removed]
    exact List.nil_prefix

end Fifo

/-! ### The writers -/

/-- The bytes that a call appended. -/
def State.bytes (s : State P) (id : ℕ) : List UInt8 := (s.appended.filter (·.1 = id)).map Prod.snd

/-- The call of `pipewrite` that a process is in, with the bytes it has done. -/
def Pc.call : Pc → Option (Write × ℕ)
  | .writing c i | .full c i | .fullWoken c i => some (c, i)
  | _ => none

/-- What the calls of `pipewrite` have appended and returned. -/
structure Writers (s : State P) : Prop where
  fresh : ∀ id, s.next ≤ id → s.bytes id = [] ∧ s.result id = none
  buffer : ∀ id c, s.calls id = some c →
    (s.bytes id).map some = (List.range (s.bytes id).length).map c.src
  active : ∀ p c i, (s.pc p).call = some (c, i) →
    c.id < s.next ∧ s.calls c.id = some c ∧ (s.bytes c.id).length = i ∧ s.result c.id = none
  unique : ∀ p q c i d j, (s.pc p).call = some (c, i) → (s.pc q).call = some (d, j) →
    c.id = d.id → p = q
  result : ∀ id r, s.result id = some r → 0 ≤ r → r = (s.bytes id).length

namespace Writers

/-- Nothing is appended, and processes at most leave their calls. -/
lemma of_pc (h : Writers s) {pc : P → Pc}
    (hpc : ∀ p, (pc p).call = none ∨ (pc p).call = (s.pc p).call) :
    Writers { s with pc := pc } := by
  have hcall : ∀ p c i, (pc p).call = some (c, i) → (s.pc p).call = some (c, i) := by
    intro p c i hp
    rcases hpc p with hnone | hsame
    · rw [hnone] at hp
      cases hp
    · rwa [← hsame]
  refine ⟨h.fresh, h.buffer, ?_, ?_, h.result⟩
  · exact fun p c i hp => h.active p c i (hcall p c i hp)
  · exact fun p q c i d j hp hq => h.unique p q c i d j (hcall p c i hp) (hcall q d j hq)

lemma call_wakeupRead (q : P) : (s.wakeupRead.pc q).call = (s.pc q).call := by
  unfold wakeupRead
  dsimp only
  split
  · next hq => rw [hq]; rfl
  · rfl

lemma call_wakeupWrite (q : P) : (s.wakeupWrite.pc q).call = (s.pc q).call := by
  unfold wakeupWrite
  dsimp only
  split
  · next hq => rw [hq]; rfl
  · rfl

lemma wakeupRead (h : Writers s) : Writers s.wakeupRead :=
  h.of_pc fun q => .inr (call_wakeupRead q)

lemma wakeupWrite (h : Writers s) : Writers s.wakeupWrite :=
  h.of_pc fun q => .inr (call_wakeupWrite q)

variable [DecidableEq P]

/-- One process at most leaves its call. -/
lemma setPc (h : Writers s) (p : P) (x : Pc) (hx : x.call = none ∨ x.call = (s.pc p).call) :
    Writers (s.setPc p x) := by
  refine h.of_pc fun q => ?_
  rcases eq_or_ne q p with rfl | hqp
  · rwa [Function.update_self]
  · rw [Function.update_of_ne hqp]
    exact .inr rfl

omit [DecidableEq P] in
/-- The call number `k` of `p` begins, goes on or returns. -/
lemma of_process (h : Writers s) {k : ℕ} (hk : k < s'.next) (hnext : s.next ≤ s'.next)
    (hbytes : ∀ id, id ≠ k → s'.bytes id = s.bytes id)
    (hcalls : ∀ id, id ≠ k → s'.calls id = s.calls id)
    (hresult : ∀ id, id ≠ k → s'.result id = s.result id)
    (hpc : ∀ q, q ≠ p → (s'.pc q).call = (s.pc q).call)
    (hothers : ∀ q, q ≠ p → ∀ d j, (s.pc q).call = some (d, j) → d.id ≠ k)
    (hself : ∀ d j, (s'.pc p).call = some (d, j) →
      d.id = k ∧ s'.calls k = some d ∧ (s'.bytes k).length = j ∧ s'.result k = none)
    (hbuffer : ∀ d, s'.calls k = some d →
      (s'.bytes k).map some = (List.range (s'.bytes k).length).map d.src)
    (hreturn : ∀ r, s'.result k = some r → 0 ≤ r → r = (s'.bytes k).length) : Writers s' := by
  -- the calls of the other processes have other numbers
  have hcases : ∀ q d j, (s'.pc q).call = some (d, j) →
      q = p ∧ d.id = k ∨ d.id ≠ k ∧ (s.pc q).call = some (d, j) := by
    intro q d j hq
    rcases eq_or_ne q p with rfl | hqp
    · exact .inl ⟨rfl, (hself d j hq).1⟩
    · rw [hpc q hqp] at hq
      exact .inr ⟨hothers q hqp d j hq, hq⟩
  refine ⟨?_, ?_, ?_, ?_, ?_⟩
  · intro id hid
    have hne : id ≠ k := (hk.trans_le hid).ne'
    rw [hbytes id hne, hresult id hne]
    exact h.fresh id (hnext.trans hid)
  · intro id d hd
    rcases eq_or_ne id k with rfl | hne
    · exact hbuffer d hd
    · rw [hcalls id hne] at hd
      rw [hbytes id hne]
      exact h.buffer id d hd
  · intro q d j hq
    rcases hcases q d j hq with ⟨rfl, rfl⟩ | ⟨hne, hq'⟩
    · exact ⟨hk, (hself d j hq).2⟩
    · rw [hcalls _ hne, hbytes _ hne, hresult _ hne]
      obtain ⟨hlt, hactive⟩ := h.active q d j hq'
      exact ⟨hlt.trans_le hnext, hactive⟩
  · intro q q' d j d' j' hq hq' heq
    rcases hcases q d j hq with ⟨rfl, hd⟩ | ⟨hne, hq₁⟩
    · rcases hcases q' d' j' hq' with ⟨rfl, -⟩ | ⟨hne', -⟩
      · rfl
      · exact absurd (heq.symm.trans hd) hne'
    · rcases hcases q' d' j' hq' with ⟨-, hd'⟩ | ⟨-, hq₁'⟩
      · exact absurd (heq.trans hd') hne
      · exact h.unique q q' d j d' j' hq₁ hq₁' heq
  · intro id r hr
    rcases eq_or_ne id k with rfl | hne
    · exact hreturn r hr
    · rw [hresult id hne] at hr
      rw [hbytes id hne]
      exact h.result id r hr

/-- A call returns what it has done, or a negative value. -/
lemma returnWrite (h : Writers s) (hp : (s.pc p).call = some (c, i)) {r : ℤ} (hr : 0 ≤ r → r = i) :
    Writers (s.returnWrite p c r) := by
  obtain ⟨hlt, hcall, hi, -⟩ := h.active p c i hp
  have hout : (s.returnWrite p c r).pc p = .out := Function.update_self ..
  refine h.of_process (p := p) hlt le_rfl (fun _ _ => rfl) (fun _ _ => rfl)
    (fun _ hid => Function.update_of_ne hid ..) (fun q hqp => ?_) (fun q hqp d j hq heq => ?_)
    (fun d j hq => ?_) (h.buffer c.id) fun r' hr' hle => ?_
  · exact congrArg Pc.call (Function.update_of_ne hqp ..)
  · exact hqp (h.unique q p d j c i hq hp heq)
  · rw [hout] at hq
    cases hq
  · have hsame : (s.returnWrite p c r).result c.id = some r := Function.update_self ..
    obtain rfl : r = r' := Option.some.inj (hsame.symm.trans hr')
    exact (hr hle).trans (congrArg Nat.cast hi.symm)

/-- A call appends the next byte of its buffer. -/
lemma append (h : Writers s) (hp : s.pc p = .writing c i) {ch : UInt8} (hch : c.src i = some ch) :
    Writers ((s.append c ch).setPc p (.writing c (i + 1))) := by
  have hcallp : (s.pc p).call = some (c, i) := by rw [hp]; rfl
  obtain ⟨hlt, hcall, hi, hnone⟩ := h.active p c i hcallp
  have hself : ((s.append c ch).setPc p (.writing c (i + 1))).bytes c.id =
    s.bytes c.id ++ [ch] := by
    simp [State.bytes, State.append, State.setPc, List.filter_append]
  have hat : ((s.append c ch).setPc p (.writing c (i + 1))).pc p = .writing c (i + 1) :=
    Function.update_self ..
  refine h.of_process (p := p) hlt le_rfl (fun id hid => ?_) (fun _ _ => rfl) (fun _ _ => rfl)
    (fun q hqp => ?_) (fun q hqp d j hq heq => ?_) (fun d j hq => ?_) (fun d hd => ?_)
    fun r hr => ?_
  · simp [State.bytes, State.append, State.setPc, List.filter_append, hid.symm]
  · exact congrArg Pc.call (Function.update_of_ne hqp ..)
  · exact hqp (h.unique q p d j c i hq hcallp heq)
  · rw [hat] at hq
    cases hq
    rw [hself, List.length_append, hi]
    exact ⟨rfl, hcall, rfl, hnone⟩
  · obtain rfl : c = d := Option.some.inj (hcall.symm.trans hd)
    rw [hself, List.map_append, List.length_append, List.length_singleton, List.range_succ,
      List.map_append, h.buffer c.id c hcall, hi]
    simp [hch]
  · exact absurd (hnone.symm.trans hr) (Option.some_ne_none r).symm

/-- A new call. -/
lemma start (h : Writers s) (src : ℕ → Option UInt8) (n : ℤ) :
    Writers { s.setPc p (.writing ⟨s.next, src, n⟩ 0) with
      lock := some p
      calls := Function.update s.calls s.next (some ⟨s.next, src, n⟩)
      next := s.next + 1 } := by
  obtain ⟨hbytes, hresult⟩ := h.fresh s.next le_rfl
  refine h.of_process (p := p) (Nat.lt_succ_self s.next) (Nat.le_succ _) (fun _ _ => rfl)
    (fun _ hid => Function.update_of_ne hid ..) (fun _ _ => rfl) (fun q hqp => ?_)
    (fun q _ d j hq => (h.active q d j hq).1.ne) (fun d j hq => ?_) (fun d _ => ?_) fun r hr => ?_
  · exact congrArg Pc.call (Function.update_of_ne hqp ..)
  · obtain ⟨rfl, rfl⟩ : ⟨s.next, src, n⟩ = d ∧ 0 = j := by simpa [State.setPc, Pc.call] using hq
    exact ⟨rfl, Function.update_self .., congrArg List.length hbytes, hresult⟩
  · show (s.bytes s.next).map some = (List.range (s.bytes s.next).length).map d.src
    rw [hbytes]
    rfl
  · exact absurd (hresult.symm.trans hr) (Option.some_ne_none r).symm

lemma writeRound (h : Writers s) (hp : s.pc p = .writing c i) : Writers (writeRound s p c i) := by
  have hcall : (s.pc p).call = some (c, i) := by rw [hp]; rfl
  have hwoken : (s.wakeupRead.pc p).call = some (c, i) := by rw [call_wakeupRead, hcall]
  unfold Pipes.writeRound
  split_ifs with hi hopen hfull
  · exact h.returnWrite hcall fun hr => absurd hr (by decide)
  · exact { h.wakeupRead.setPc p (.full c i) (.inr hwoken.symm) with }
  · split
    · exact h.wakeupRead.returnWrite hwoken fun _ => rfl
    · next ch hch => exact h.append hp hch
  · exact h.wakeupRead.returnWrite hwoken fun _ => rfl

lemma next (h : Writers s) {e : Event P} (hnext : next s e = some s') : Writers s' := by
  cases e with
  | write p src n =>
    simp only [Pipes.next] at hnext
    split at hnext
    · cases hnext
      exact h.start src n
    · cases hnext
  | read p dst n =>
    simp only [Pipes.next] at hnext
    split at hnext
    · cases hnext
      exact { h.setPc p (.waiting ⟨dst, n⟩) (.inl rfl) with }
    · cases hnext
  | step p =>
    simp only [Pipes.next] at hnext
    split at hnext
    · next hp =>
      cases hnext
      exact h.writeRound hp
    · cases hnext
      unfold Pipes.waitRound
      split_ifs
      · exact { h.setPc p .out (.inl rfl) with }
      · exact { h.setPc p (.empty _) (.inl rfl) with }
      · exact h.setPc p _ (.inl rfl)
    · cases hnext
      unfold Pipes.copyRound
      split_ifs
      · exact { h.setPc p (.copying _ _) (.inl rfl) with }
      · exact { h.wakeupWrite.setPc p .out (.inl rfl) with }
      · exact { h.wakeupWrite.setPc p .out (.inl rfl) with }
    · next c i hp =>
      split_ifs at hnext
      cases hnext
      exact { h.setPc p (.writing c i) (.inr (by rw [hp]; rfl)) with }
    · split_ifs at hnext
      cases hnext
      exact { h.setPc p (.waiting _) (.inl rfl) with }
    · cases hnext
    · cases hnext
    · cases hnext
  | close writable =>
    simp only [Pipes.next] at hnext
    split_ifs at hnext
    cases hnext
    unfold pipeclose
    split_ifs
    · exact { h.wakeupRead with }
    · exact { h.wakeupWrite with }
  | kill p =>
    cases hnext
    refine { h.setPc p _ ?_ with }
    split
    · next hp => exact .inr (by rw [hp]; rfl)
    · exact .inl rfl
    · exact .inr rfl

lemma of_reachable (h : (machine P).Reachable s) : Writers s := by
  refine h.invariant ?_ fun s e s' hs hnext => hs.next hnext
  intro s hs
  have hbytes : ∀ id, s.bytes id = [] := by
    intro id
    rw [State.bytes, hs.appended]
    rfl
  have hnone : ∀ p c i, (s.pc p).call ≠ some (c, i) := by
    intro p c i hp
    rw [hs.pc p] at hp
    cases hp
  refine ⟨?_, ?_, ?_, ?_, ?_⟩
  · exact fun id _ => ⟨hbytes id, hs.result id⟩
  · intro id c hc
    rw [hs.calls id] at hc
    cases hc
  · exact fun p c i hp => absurd hp (hnone p c i)
  · exact fun p q c i d j hp => absurd hp (hnone p c i)
  · intro id r hr
    rw [hs.result id] at hr
    cases hr

end Writers

/-- A new pipe. -/
def fresh (P : Type) : State P where
  pipe := ⟨fun _ => 0, 0, 0, true, true⟩
  lock := none
  pc _ := .out
  killed _ := false
  appended := []
  removed := []
  calls _ := none
  next := 0
  result _ := none

lemma fresh_fresh : Fresh (fresh P) :=
  ⟨rfl, rfl, rfl, rfl, rfl, fun _ => rfl, rfl, rfl, fun _ => rfl, rfl, fun _ => rfl⟩

variable [DecidableEq P]

/-- In every run of any number of writers and readers, however long, the pipe is a bounded queue: it
never holds more than `PIPESIZE` bytes, it holds what was appended and not yet removed, in order,
and what was removed is a beginning of what was appended. Every call of `pipewrite` appends a
beginning of its buffer, and returns the number of its bytes unless it returns a negative value. -/
theorem pipe_fifo (h : (machine P).Reachable s) :
    (s.pipe.nwrite - s.pipe.nread).toNat ≤ PIPESIZE ∧
      (List.range (s.pipe.nwrite - s.pipe.nread).toNat).map
          (fun k => s.pipe.data ((s.pipe.nread.toNat + k) % PIPESIZE))
        = (s.appended.map Prod.snd).drop s.removed.length ∧
      s.removed <+: s.appended.map Prod.snd ∧
      (∀ id c, s.calls id = some c →
        (s.bytes id).map some = (List.range (s.bytes id).length).map c.src) ∧
      ∀ id r, s.result id = some r → 0 ≤ r → r = (s.bytes id).length := by
  have hfifo := Fifo.of_reachable h
  have hwriters := Writers.of_reachable h
  have hle := hfifo.length_le
  have hle' := hfifo.length_le_add
  have hdist : (s.pipe.nwrite - s.pipe.nread).toNat = s.appended.length - s.removed.length := by
    rw [hfifo.nwrite, hfifo.nread]
    apply Counter.toNat_sub hle
    rw [PIPESIZE] at hle'
    omega
  refine ⟨by omega, ?_, hfifo.removed, hwriters.buffer, hwriters.result⟩
  have hplace : ∀ k, (s.pipe.nread.toNat + k) % PIPESIZE = (s.removed.length + k) % PIPESIZE := by
    intro k
    rw [Nat.add_mod, hfifo.nread, Counter.toNat_mod _ (by decide), ← Nat.add_mod]
  have hcontents := hfifo.ring.contents
  rw [List.length_map] at hcontents
  rw [hdist]
  simp only [hplace]
  exact hcontents

/-- The process 0 writes three bytes, of which the process 1 reads two. -/
def twoOfThree : State (Fin 2) :=
  ((machine (Fin 2)).exec (fresh _) [.write 0 (fun k => some (.ofNat (k + 7))) 3, .step 0, .step 0,
    .step 0, .step 0, .read 1 (fun _ => true) 2, .step 1, .step 1, .step 1, .step 1]).getD (fresh _)

theorem pipe_fifo_twoOfThree : (machine (Fin 2)).Reachable twoOfThree ∧
    twoOfThree.result 0 = some 3 ∧ twoOfThree.removed = [7, 8] ∧
    twoOfThree.removed <+: twoOfThree.appended.map Prod.snd := by
  have hreach : (machine (Fin 2)).Reachable twoOfThree := .getD_exec fresh_fresh (by decide +kernel)
  exact ⟨hreach, by decide +kernel, by decide +kernel, (pipe_fifo hreach).2.2.1⟩

end Xv6.Pipes
