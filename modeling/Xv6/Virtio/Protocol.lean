import Xv6.Virtio.Alloc

/-!
# The request protocol of the disk

The descriptors that are not free are the chains of the requests in flight. Each such request is
published and not seen by the device yet, or worked on, or completed and not handled yet, or done.
The two rings hold the first and the third kind.
-/

namespace Xv6.Virtio

open Core State

variable {B P : Type} {s s' : State B P} {p q : P} {b : B} {i j k : ℕ} {r t : Request B}

/-- The requests that the device or the interrupt handler still have to deal with. -/
def State.live (s : State B P) : List (ℕ × ℕ) :=
  s.published.drop s.seen ++ s.pending ++ s.completed.drop s.handled

/-- Who has which descriptors and buffers. -/
structure Owned (s : State B P) : Prop where
  chained : ∀ p r, (s.pc p).request = some r → Chained s.desc r
  info : ∀ p r, (s.pc p).request = some r → s.infoB r.idx.1 = some r.b
  disjoint : ∀ p q r t i, (s.pc p).request = some r → (s.pc q).request = some t → i ∈ r.chain →
    i ∈ t.chain → p = q
  free : ∀ i < NUM, s.free i = false ↔ ∃ p r, (s.pc p).request = some r ∧ i ∈ r.chain
  holder : ∀ p b, (s.pc p).buffer = some b → s.holder b = some p

/-- The rings and their indices. -/
structure Rings (s : State B P) : Prop where
  avail : Ring NUM s.availRing (s.published.map Prod.fst) s.seen
  availIdx : s.availIdx = .ofNat s.published.length
  seenIdx : s.seenIdx = .ofNat s.seen
  used : Ring NUM s.usedRing (s.completed.map Prod.fst) s.handled
  usedIdx : s.usedIdx = .ofNat s.completed.length
  used_idx : s.used_idx = .ofNat s.handled
  numbers : s.published.map Prod.snd = List.range s.serial

/-- The requests in flight whose buffers the disk owns are the live ones. -/
structure Live (s : State B P) : Prop where
  nodup : (s.live.map Prod.fst).Nodup
  sound : ∀ x ∈ s.live, ∃ p r, (s.pc p).request = some r ∧ x = r.entry ∧ s.disk r.b = true
  complete : ∀ p r, (s.pc p).request = some r → s.disk r.b = true → r.entry ∈ s.live
  done : ∀ p r, (s.pc p).request = some r → s.disk r.b = false → r.entry ∈ s.completed
  status : ∀ x ∈ s.completed.drop s.handled, s.status x.1 = 0
  own : ∀ p r, (s.pc p).request = some r → r.entry ∈ s.published

structure Inv (s : State B P) : Prop extends Owned s, Rings s, Live s

lemma Request.head_mem (r : Request B) : r.idx.1 ∈ r.chain := List.mem_cons_self

lemma Pc.buffer_of_request {pc : Pc B} (h : pc.request = some r) : pc.buffer = some r.b := by
  cases pc with
  | out => cases h
  | starved b write => cases h
  | starvedWoken b write => cases h
  | waiting t => exact congrArg (Option.map Request.b) h
  | waitingWoken t => exact congrArg (Option.map Request.b) h

namespace Inv

/-- Different processes have different buffers. -/
lemma buffer_inj (h : Inv s) (hp : (s.pc p).request = some r) (hq : (s.pc q).request = some t)
    (hb : r.b = t.b) : p = q := by
  have hp' := h.holder p r.b (Pc.buffer_of_request hp)
  have hq' := h.holder q t.b (Pc.buffer_of_request hq)
  rw [hb, hq'] at hp'
  exact (Option.some.inj hp').symm

/-- Different processes have different heads. -/
lemma head_inj (h : Inv s) (hp : (s.pc p).request = some r) (hq : (s.pc q).request = some t)
    (heq : r.idx.1 = t.idx.1) : p = q :=
  h.disjoint p q r t r.idx.1 hp hq r.head_mem (heq ▸ t.head_mem)

/-- The heads of the live requests are descriptors. -/
lemma heads_subset (h : Inv s) : s.live.map Prod.fst ⊆ List.range NUM := by
  intro i hi
  obtain ⟨x, hx, rfl⟩ := List.mem_map.mp hi
  obtain ⟨p, r, hp, rfl, -⟩ := h.sound x hx
  exact List.mem_range.mpr ((h.chained p r hp).lt _ r.head_mem)

/-- There is room for one more live request besides the known ones. -/
lemma length_lt (h : Inv s) {i : ℕ} (hi : i < NUM) (hnew : i ∉ s.live.map Prod.fst) :
    s.live.length < NUM := by
  have hnodup : (i :: s.live.map Prod.fst).Nodup := List.nodup_cons.mpr ⟨hnew, h.nodup⟩
  have hsub : i :: s.live.map Prod.fst ⊆ List.range NUM :=
    List.cons_subset.mpr ⟨List.mem_range.mpr hi, h.heads_subset⟩
  have hle := (List.subperm_of_subset hnodup hsub).length_le
  rw [List.length_cons, List.length_map, List.length_range] at hle
  exact hle

lemma seen_le (h : Inv s) : s.seen ≤ s.published.length := by
  have := h.avail.start_le
  rwa [List.length_map] at this

lemma handled_le (h : Inv s) : s.handled ≤ s.completed.length := by
  have := h.used.start_le
  rwa [List.length_map] at this

/-- The processes sleep and wake up, but are in their calls as before. -/
lemma of_pc (h : Inv s) {pc : P → Pc B} {desc : ℕ → Desc B} {holder : B → Option P}
    (hrequest : ∀ p, (pc p).request = (s.pc p).request)
    (hdesc : ∀ i, s.free i = false → desc i = s.desc i)
    (hholder : ∀ p b, (pc p).buffer = some b → holder b = some p) (intr : Bool) :
    Inv { s with pc := pc, desc := desc, holder := holder, intr := intr } := by
  have hchain : ∀ p r, (s.pc p).request = some r → ∀ i ∈ r.chain, desc i = s.desc i := by
    intro p r hp i hi
    exact hdesc i ((h.free i ((h.chained p r hp).lt i hi)).mpr ⟨p, r, hp, hi⟩)
  refine ⟨⟨?_, ?_, ?_, ?_, hholder⟩, ⟨h.avail, h.availIdx, h.seenIdx, h.used, h.usedIdx, h.used_idx,
    h.numbers⟩, ⟨h.nodup, ?_, ?_, ?_, h.status, ?_⟩⟩
  · intro p r hp
    rw [hrequest] at hp
    exact (h.chained p r hp).of_eq (hchain p r hp)
  · intro p r hp
    rw [hrequest] at hp
    exact h.info p r hp
  · intro p q r t i hp hq
    rw [hrequest] at hp hq
    exact h.disjoint p q r t i hp hq
  · intro i hi
    simp only [hrequest]
    exact h.free i hi
  · intro x hx
    simp only [hrequest]
    exact h.sound x hx
  · intro p r hp
    rw [hrequest] at hp
    exact h.complete p r hp
  · intro p r hp
    rw [hrequest] at hp
    exact h.done p r hp
  · intro p r hp
    rw [hrequest] at hp
    exact h.own p r hp

lemma unchanged (h : Inv s) (hs' : Unchanged s s') : Inv s' := by
  rw [hs'.rest]
  refine h.of_pc hs'.request hs'.desc ?_ s.intr
  intro p b hp
  rw [hs'.buffer] at hp
  exact h.holder p b hp

section

variable [DecidableEq P]

lemma setPc (h : Inv s) {pc : Pc B} (hrequest : pc.request = (s.pc p).request)
    (hholder : ∀ b, pc.buffer = some b → s.holder b = some p) : Inv (s.setPc p pc) := by
  refine h.of_pc ?_ (fun _ _ => rfl) ?_ s.intr
  · intro q
    rcases eq_or_ne q p with rfl | hq
    · rw [Function.update_self, hrequest]
    · rw [Function.update_of_ne hq]
  · intro q b hq
    rcases eq_or_ne q p with rfl | hqp
    · rw [Function.update_self] at hq
      exact hholder b hq
    · rw [Function.update_of_ne hqp] at hq
      exact h.holder q b hq

end

/-! ### The device -/

/-- The device sees the next request. -/
lemma deviceSee (h : Inv s) (hne : s.seenIdx ≠ s.availIdx) : Inv (deviceSee s) := by
  have hlt : s.seen < s.published.length := by
    refine lt_of_le_of_ne h.seen_le fun heq => hne ?_
    rw [h.seenIdx, h.availIdx, heq]
  have hplace : s.seenIdx.toNat % NUM = s.seen % NUM := by
    rw [h.seenIdx]
    exact Counter.toNat_mod16 _ (by decide)
  have hfirst := h.avail.exists_get (by rwa [List.length_map])
  rw [List.getElem?_map, List.getElem?_eq_getElem hlt] at hfirst
  -- what it reads is the entry that was published
  have hentry : (s.availRing (s.seenIdx.toNat % NUM),
    ((s.published[s.seen]?).map Prod.snd).getD 0) =
      s.published[s.seen] := by
    rw [hplace, List.getElem?_eq_getElem hlt, ← Option.some.inj hfirst]
    rfl
  have hperm : (Virtio.deviceSee s).live.Perm s.live := by
    simp only [live, Virtio.deviceSee, hentry]
    rw [List.drop_eq_getElem_cons hlt, List.cons_append, List.cons_append]
    refine List.Perm.trans ?_ (@List.perm_middle _ _ (s.published.drop (s.seen + 1) ++ s.pending) _)
    simp
  refine ⟨⟨h.chained, h.info, h.disjoint, h.free, h.holder⟩,
    ⟨h.avail.pop (by rwa [List.length_map]), h.availIdx, ?_, h.used, h.usedIdx,
      h.used_idx, h.numbers⟩,
    ⟨?_, ?_, ?_, h.done, h.status, h.own⟩⟩
  · simp only [Virtio.deviceSee, h.seenIdx]
    exact Counter.succ16 _
  · exact (hperm.map _).nodup_iff.mpr h.nodup
  · exact fun x hx => h.sound x (hperm.mem_iff.mp hx)
  · exact fun p r hp hdisk => hperm.mem_iff.mpr (h.complete p r hp hdisk)

/-- The chain of a request leads the device to the status of its head. -/
lemma deviceStatus_eq (h : Inv s) (hp : (s.pc p).request = some r) :
    deviceStatus s r.idx.1 = { s with status := Function.update s.status r.idx.1 0 } := by
  have hchain := h.chained p r hp
  unfold deviceStatus
  dsimp only
  rw [hchain.first.2, hchain.second.2, hchain.third.2]

lemma deviceComplete (h : Inv s) {x : ℕ × ℕ} (hx : x ∈ s.pending) : Inv (deviceComplete s x) := by
  have hlive : x ∈ s.live := List.mem_append_left _ (List.mem_append_right _ hx)
  obtain ⟨p, r, hp, rfl, hdisk⟩ := h.sound x hlive
  have hroom : s.completed.length < s.handled + NUM := by
    have hlength := (List.subperm_of_subset h.nodup h.heads_subset).length_le
    rw [List.length_map, List.length_range] at hlength
    have hpos := List.length_pos_of_mem hx
    rw [live, List.length_append, List.length_append, List.length_drop, List.length_drop] at hlength
    omega
  have hplace : s.usedIdx.toNat % NUM = (s.completed.map Prod.fst).length % NUM := by
    rw [h.usedIdx, List.length_map]
    exact Counter.toNat_mod16 _ (by decide)
  have hdrop : (s.completed ++ [r.entry]).drop s.handled =
    s.completed.drop s.handled ++ [r.entry] :=
    List.drop_append_of_le_length h.handled_le
  have hstate : Virtio.deviceComplete s r.entry =
      { s with
        status := Function.update s.status r.idx.1 0
        usedRing := Function.update s.usedRing (s.usedIdx.toNat % NUM) r.idx.1
        usedIdx := s.usedIdx + 1
        pending := s.pending.erase r.entry
        completed := s.completed ++ [r.entry] } := by
    unfold Virtio.deviceComplete
    rw [show r.entry.1 = r.idx.1 from rfl, h.deviceStatus_eq hp]
  rw [hstate]
  have hperm : (s.published.drop s.seen ++ s.pending.erase r.entry ++
      (s.completed ++ [r.entry]).drop s.handled).Perm s.live := by
    rw [hdrop, live, List.append_assoc, List.append_assoc]
    refine List.Perm.append_left _ ?_
    rw [← List.append_assoc]
    exact (List.perm_append_singleton _ _).trans
      (List.Perm.append_right _ (List.perm_cons_erase hx).symm)
  refine ⟨⟨h.chained, h.info, h.disjoint, h.free, h.holder⟩,
    ⟨h.avail, h.availIdx, h.seenIdx, ?_, ?_, h.used_idx, h.numbers⟩, ⟨?_, ?_, ?_, ?_, ?_, h.own⟩⟩
  · simp only [hplace, List.map_append, List.map_cons, List.map_nil]
    exact h.used.push (by rwa [List.length_map]) _
  · simp only [h.usedIdx, List.length_append, List.length_singleton]
    exact Counter.succ16 _
  · exact (hperm.map _).nodup_iff.mpr h.nodup
  · exact fun y hy => h.sound y (hperm.mem_iff.mp hy)
  · exact fun q t hq hd => hperm.mem_iff.mpr (h.complete q t hq hd)
  · exact fun q t hq hd => List.mem_append_left _ (h.done q t hq hd)
  · intro y hy
    simp only [hdrop, List.mem_append, List.mem_singleton] at hy
    rcases eq_or_ne y.1 r.idx.1 with heq | hne
    · simp only [heq, Function.update_self]
    · rcases hy with hy | rfl
      · simp only [Function.update_of_ne hne]
        exact h.status y hy
      · exact absurd rfl hne

/-! ### The interrupt handler -/

section

variable [DecidableEq B]

lemma request_wakeup (p : P) : ((s.wakeup b).pc p).request = (s.pc p).request := by
  unfold wakeup
  dsimp only
  split
  · next hp =>
    rw [hp]
    split_ifs <;> rfl
  · rfl

lemma buffer_wakeup (p : P) : ((s.wakeup b).pc p).buffer = (s.pc p).buffer := by
  unfold wakeup
  dsimp only
  split
  · next hp =>
    rw [hp]
    split_ifs <;> rfl
  · rfl

/-- The handler deals with the next completed request: it clears the flag of its buffer. -/
lemma intrRound_eq (h : Inv s) (hne : s.used_idx ≠ s.usedIdx) :
    ∃ p r, (s.pc p).request = some r ∧ s.completed[s.handled]? = some r.entry ∧ s.disk r.b = true ∧
      intrRound s = .ok { { s with disk := Function.update s.disk r.b false }.wakeup r.b with
        used_idx := s.used_idx + 1
        handled := s.handled + 1 } := by
  have hlt : s.handled < s.completed.length := by
    refine lt_of_le_of_ne h.handled_le fun heq => hne ?_
    rw [h.used_idx, h.usedIdx, heq]
  have hplace : s.used_idx.toNat % NUM = s.handled % NUM := by
    rw [h.used_idx]
    exact Counter.toNat_mod16 _ (by decide)
  have hfirst := h.used.exists_get (by rwa [List.length_map])
  rw [List.getElem?_map, List.getElem?_eq_getElem hlt] at hfirst
  have hmem : s.completed[s.handled] ∈ s.completed.drop s.handled := by
    rw [List.drop_eq_getElem_cons hlt]
    exact List.mem_cons_self
  obtain ⟨p, r, hp, hentry, hdisk⟩ := h.sound _ (List.mem_append_right _ hmem)
  refine ⟨p, r, hp, by rw [List.getElem?_eq_getElem hlt, hentry], hdisk, ?_⟩
  have hid : s.usedRing (s.used_idx.toNat % NUM) = r.idx.1 := by
    rw [hplace, ← Option.some.inj hfirst, hentry]
    rfl
  have hstatus : s.status r.idx.1 = 0 := by
    have := h.status _ hmem
    rwa [hentry] at this
  rw [intrRound, if_pos hne]
  simp only [hid, hstatus, ne_eq, not_true_eq_false, if_false, h.info p r hp]

lemma intrRound (h : Inv s) (hs' : intrRound s = .ok s') : Inv s' := by
  by_cases hne : s.used_idx ≠ s.usedIdx
  swap
  · rw [Virtio.intrRound, if_neg hne] at hs'
    cases hs'
    exact h.of_pc (fun _ => rfl) (fun _ _ => rfl) h.holder false
  obtain ⟨p, r, hp, hget, hdisk, heq⟩ := h.intrRound_eq hne
  rw [heq] at hs'
  cases hs'
  obtain ⟨hlt, hentry⟩ := List.getElem?_eq_some_iff.mp hget
  have hdrop : s.completed.drop s.handled = r.entry :: s.completed.drop (s.handled + 1) := by
    rw [List.drop_eq_getElem_cons hlt, hentry]
  have hperm : s.live.Perm
      (r.entry :: (s.published.drop s.seen ++ s.pending ++ s.completed.drop (s.handled + 1))) := by
    rw [live, hdrop]
    exact List.perm_middle
  have hnodup := (hperm.map Prod.fst).nodup_iff.mp h.nodup
  rw [List.map_cons, List.nodup_cons] at hnodup
  -- the flags of the other requests are as before
  have hother : ∀ q t, (s.pc q).request = some t → t.entry ≠ r.entry → t.b ≠ r.b := by
    intro q t hq hne' hb
    obtain rfl := h.buffer_inj hq hp hb
    rw [hp] at hq
    exact hne' (by rw [Option.some.inj hq])
  refine ⟨⟨?_, ?_, ?_, ?_, ?_⟩, ⟨h.avail, h.availIdx, h.seenIdx, ?_, h.usedIdx, ?_, h.numbers⟩,
    ⟨hnodup.2, ?_, ?_, ?_, ?_, ?_⟩⟩
  · intro q t hq
    exact h.chained q t ((request_wakeup q).symm.trans hq)
  · intro q t hq
    exact h.info q t ((request_wakeup q).symm.trans hq)
  · intro q q' t t' i hq hq'
    exact h.disjoint q q' t t' i ((request_wakeup q).symm.trans hq)
      ((request_wakeup q').symm.trans hq')
  · intro i hi
    refine (h.free i hi).trans ?_
    constructor
    · rintro ⟨q, t, hq, hmem⟩
      exact ⟨q, t, (request_wakeup q).trans hq, hmem⟩
    · rintro ⟨q, t, hq, hmem⟩
      exact ⟨q, t, (request_wakeup q).symm.trans hq, hmem⟩
  · intro q b hq
    exact h.holder q b ((buffer_wakeup q).symm.trans hq)
  · exact h.used.pop (by rwa [List.length_map])
  · simp only [h.used_idx]
    exact Counter.succ16 _
  · intro x hx
    obtain ⟨q, t, hq, rfl, hd⟩ := h.sound x (hperm.mem_iff.mpr (List.mem_cons_of_mem _ hx))
    refine ⟨q, t, (request_wakeup q).trans hq, rfl, ?_⟩
    have hne' : t.entry ≠ r.entry := by
      intro heq'
      exact hnodup.1 (heq' ▸ List.mem_map_of_mem hx)
    exact (Function.update_of_ne (hother q t hq hne') ..).trans hd
  · intro q t hq hd
    have hq' := (request_wakeup q).symm.trans hq
    have hb : t.b ≠ r.b := by
      intro hb
      have hfalse : Function.update s.disk r.b false t.b = true := hd
      rw [hb, Function.update_self] at hfalse
      cases hfalse
    have hd' : s.disk t.b = true := (Function.update_of_ne hb ..).symm.trans hd
    refine (List.mem_cons.mp (hperm.mem_iff.mp (h.complete q t hq' hd'))).resolve_left ?_
    intro heq'
    have hhead : t.entry.1 = r.entry.1 := by rw [heq']
    obtain rfl := h.head_inj hq' hp hhead
    rw [hp] at hq'
    exact hb (by rw [Option.some.inj hq'])
  · intro q t hq hd
    have hq' := (request_wakeup q).symm.trans hq
    by_cases hb : t.b = r.b
    · obtain rfl := h.buffer_inj hq' hp hb
      rw [hp] at hq'
      rw [← Option.some.inj hq']
      exact List.mem_of_getElem? hget
    · exact h.done q t hq' ((Function.update_of_ne hb ..).symm.trans hd)
  · intro x hx
    exact h.status x (hdrop ▸ List.mem_cons_of_mem _ hx)
  · intro q t hq
    exact h.own q t ((request_wakeup q).symm.trans hq)

end

end Inv

end Xv6.Virtio
