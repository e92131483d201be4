import Xv6.Virtio.Protocol

/-!
# The requests of the processes

`virtio_disk_rw` publishes a request and later frees its descriptors. With that, every step of the
driver keeps the protocol, and none panics.
-/

namespace Xv6.Virtio

open Core State

variable {B P : Type} [DecidableEq B] [DecidableEq P] {s s' : State B P} {p q : P}
  {b : B} {i j k : ℕ}
  {r t : Request B}

namespace Inv

/-- A process without a request publishes one with three free descriptors. -/
lemma submit (h : Inv s) (hp : (s.pc p).request = none) (hb : s.holder b = some p)
    (hnodup : [i, j, k].Nodup) (hfree : ∀ x ∈ [i, j, k], x < NUM ∧ s.free x = true) (write : Bool) :
    Inv ((publish (format (((s.take i).take j).take k) b write (i, j, k)) b i).setPc p
      (.waiting ⟨b, (i, j, k), s.serial⟩)) := by
  obtain ⟨⟨hij, hik⟩, hjk⟩ : (i ≠ j ∧ i ≠ k) ∧ j ≠ k := by simpa using hnodup
  generalize hs' : (publish (format (((s.take i).take j).take k) b write (i, j, k)) b i).setPc p
    (.waiting ⟨b, (i, j, k), s.serial⟩) = s'
  have hnew : ∀ q t, (s.pc q).request = some t → ∀ x ∈ t.chain, x ∉ [i, j, k] := by
    intro q t hq x hx hmem
    have hx' := (h.free x ((h.chained q t hq).lt x hx)).mpr ⟨q, t, hq, hx⟩
    rw [(hfree x hmem).2] at hx'
    cases hx'
  have hrequest : ∀ q t, (s'.pc q).request = some t →
      (q = p ∧ t = ⟨b, (i, j, k), s.serial⟩) ∨ (q ≠ p ∧ (s.pc q).request = some t) := by
    intro q t hq
    have hpc : s'.pc = Function.update s.pc p (.waiting ⟨b, (i, j, k), s.serial⟩) := by
      rw [← hs']; rfl
    rw [hpc] at hq
    rcases eq_or_ne q p with rfl | hqp
    · rw [Function.update_self] at hq
      exact .inl ⟨rfl, (Option.some.inj hq).symm⟩
    · rw [Function.update_of_ne hqp] at hq
      exact .inr ⟨hqp, hq⟩
  have hself : (s'.pc p).request = some ⟨b, (i, j, k), s.serial⟩ := by
    rw [← hs']
    simp [State.setPc, Pc.request]
  have hkeep : ∀ q t, (s.pc q).request = some t → (s'.pc q).request = some t := by
    intro q t hq
    have hqp : q ≠ p := by
      rintro rfl
      rw [hp] at hq
      cases hq
    rw [← hs']
    exact (congrArg Pc.request (Function.update_of_ne hqp ..)).trans hq
  have hdesc : ∀ x, x ∉ [i, j, k] → s'.desc x = s.desc x := by
    intro x hx
    obtain ⟨hxi, hxj, hxk⟩ : x ≠ i ∧ x ≠ j ∧ x ≠ k := by simpa using hx
    rw [← hs']
    exact (Function.update_of_ne hxk ..).trans
      ((Function.update_of_ne hxj ..).trans (Function.update_of_ne hxi ..))
  have hinfo : s'.infoB = Function.update s.infoB i (some b) := by rw [← hs']; rfl
  have hdisk : s'.disk = Function.update s.disk b true := by rw [← hs']; rfl
  have hstatus : s'.status = Function.update s.status i 0xff := by rw [← hs']; rfl
  have hpublished : s'.published = s.published ++ [(i, s.serial)] := by rw [← hs']; rfl
  -- the buffers of the other processes are different ones
  have hother : ∀ q t, (s.pc q).request = some t → t.b ≠ b := by
    intro q t hq heq
    have hq' := h.holder q t.b (Pc.buffer_of_request hq)
    rw [heq, hb] at hq'
    obtain rfl := Option.some.inj hq'
    rw [hp] at hq
    cases hq
  have hdisk' : ∀ q t, (s.pc q).request = some t → s'.disk t.b = s.disk t.b := by
    intro q t hq
    rw [hdisk, Function.update_of_ne (hother q t hq)]
  have hhead : i ∉ s.live.map Prod.fst := by
    intro hmem
    obtain ⟨x, hx, rfl⟩ := List.mem_map.mp hmem
    obtain ⟨q, t, hq, rfl, -⟩ := h.sound x hx
    exact hnew q t hq _ t.head_mem List.mem_cons_self
  have hperm : s'.live.Perm ((i, s.serial) :: s.live) := by
    have hlive : s'.live = (s.published ++ [(i, s.serial)]).drop s.seen ++ s.pending ++
        s.completed.drop s.handled := by rw [← hs']; rfl
    rw [hlive, List.drop_append_of_le_length h.seen_le, live, List.append_assoc, List.append_assoc,
      List.append_assoc]
    exact List.perm_middle
  refine ⟨⟨?_, ?_, ?_, ?_, ?_⟩, ⟨?_, ?_, ?_, ?_, ?_, ?_, ?_⟩, ⟨?_, ?_, ?_, ?_, ?_, ?_⟩⟩
  · intro q t hq
    rcases hrequest q t hq with ⟨rfl, rfl⟩ | ⟨-, hq'⟩
    · have hi : s'.desc i = ⟨.ops i, 16, VRING_DESC_F_NEXT, j⟩ := by
        rw [← hs']
        exact (Function.update_of_ne hik ..).trans
          ((Function.update_of_ne hij ..).trans (Function.update_self ..))
      have hj : s'.desc j = ⟨.data b, BSIZE, (if write then 0 else VRING_DESC_F_WRITE) |||
          VRING_DESC_F_NEXT, k⟩ := by
        rw [← hs']
        exact (Function.update_of_ne hjk ..).trans (Function.update_self ..)
      have hk : s'.desc k = ⟨.status i, 1, VRING_DESC_F_WRITE, 0⟩ := by
        rw [← hs']
        exact Function.update_self ..
      refine ⟨fun x hx => (hfree x hx).1, hnodup, ?_, ?_, ?_⟩
      · dsimp only
        rw [hi]
        exact ⟨(by decide : VRING_DESC_F_NEXT &&& VRING_DESC_F_NEXT ≠ 0), rfl⟩
      · dsimp only
        have hflags : ∀ write :
          Bool, ((if write then 0 else VRING_DESC_F_WRITE) ||| VRING_DESC_F_NEXT) &&&
            VRING_DESC_F_NEXT ≠ 0 := by decide
        rw [hj]
        exact ⟨hflags write, rfl⟩
      · dsimp only
        rw [hk]
        exact ⟨(by decide : VRING_DESC_F_WRITE &&& VRING_DESC_F_NEXT = 0), rfl⟩
    · exact (h.chained q t hq').of_eq fun x hx => hdesc x (hnew q t hq' x hx)
  · intro q t hq
    rw [hinfo]
    rcases hrequest q t hq with ⟨rfl, rfl⟩ | ⟨-, hq'⟩
    · exact Function.update_self ..
    · have hne : t.idx.1 ≠ i := by
        rintro rfl
        exact hnew q t hq' _ t.head_mem List.mem_cons_self
      rw [Function.update_of_ne hne]
      exact h.info q t hq'
  · intro q q' t t' x hq hq' hx hx'
    rcases hrequest q t hq with ⟨rfl, rfl⟩ | ⟨-, hold⟩ <;>
      rcases hrequest q' t' hq' with ⟨rfl, rfl⟩ | ⟨-, hold'⟩
    · rfl
    · exact absurd hx (hnew q' t' hold' x hx')
    · exact absurd hx' (hnew q t hold x hx)
    · exact h.disjoint q q' t t' x hold hold' hx hx'
  · intro x hx
    have hfree' : s'.free x = if x ∈ [i, j, k] then false else s.free x := by
      rw [← hs']
      exact update_three s.free i j k false x
    rw [hfree']
    by_cases hmem : x ∈ [i, j, k]
    · rw [if_pos hmem]
      exact ⟨fun _ => ⟨p, _, hself, hmem⟩, fun _ => rfl⟩
    · rw [if_neg hmem, h.free x hx]
      constructor
      · rintro ⟨q, t, hq, hxt⟩
        exact ⟨q, t, hkeep q t hq, hxt⟩
      · rintro ⟨q, t, hq, hxt⟩
        rcases hrequest q t hq with ⟨-, rfl⟩ | ⟨-, hq'⟩
        · exact absurd hxt hmem
        · exact ⟨q, t, hq', hxt⟩
  · intro q c hq
    have hholder : s'.holder = s.holder := by rw [← hs']; rfl
    have hpc : s'.pc = Function.update s.pc p (.waiting ⟨b, (i, j, k), s.serial⟩) := by
      rw [← hs']; rfl
    rw [hholder]
    rw [hpc] at hq
    rcases eq_or_ne q p with rfl | hqp
    · rw [Function.update_self] at hq
      cases hq
      exact hb
    · rw [Function.update_of_ne hqp] at hq
      exact h.holder q c hq
  · have hroom := h.length_lt (hfree i List.mem_cons_self).1 hhead
    have hlength : (s.published.map Prod.fst).length < s.seen + NUM := by
      rw [live, List.length_append, List.length_append, List.length_drop] at hroom
      rw [List.length_map]
      omega
    have hplace : s.availIdx.toNat % NUM = (s.published.map Prod.fst).length % NUM := by
      rw [h.availIdx, List.length_map]
      exact Counter.toNat_mod16 _ (by decide)
    have hring := h.avail.push hlength i
    rw [← hplace] at hring
    rw [hpublished, List.map_append, ← hs']
    exact hring
  · rw [hpublished, List.length_append, List.length_singleton, ← Counter.succ16,
      ← h.availIdx, ← hs']
    rfl
  · rw [← hs']
    exact h.seenIdx
  · rw [← hs']
    exact h.used
  · rw [← hs']
    exact h.usedIdx
  · rw [← hs']
    exact h.used_idx
  · have hserial : s'.serial = s.serial + 1 := by rw [← hs']; rfl
    rw [hpublished, hserial, List.map_append, h.numbers, List.range_succ]
    rfl
  · rw [(hperm.map Prod.fst).nodup_iff, List.map_cons, List.nodup_cons]
    exact ⟨hhead, h.nodup⟩
  · intro x hx
    rcases List.mem_cons.mp (hperm.mem_iff.mp hx) with rfl | hx
    · exact ⟨p, _, hself, rfl, by rw [hdisk]; exact Function.update_self ..⟩
    · obtain ⟨q, t, hq, rfl, hd⟩ := h.sound x hx
      exact ⟨q, t, hkeep q t hq, rfl, (hdisk' q t hq).trans hd⟩
  · intro q t hq hd
    rw [hperm.mem_iff, List.mem_cons]
    rcases hrequest q t hq with ⟨-, rfl⟩ | ⟨-, hq'⟩
    · exact .inl rfl
    · exact .inr (h.complete q t hq' ((hdisk' q t hq').symm.trans hd))
  · intro q t hq hd
    have hcompleted : s'.completed = s.completed := by rw [← hs']; rfl
    rw [hcompleted]
    rcases hrequest q t hq with ⟨-, rfl⟩ | ⟨-, hq'⟩
    · rw [hdisk, Function.update_self] at hd
      cases hd
    · exact h.done q t hq' ((hdisk' q t hq').symm.trans hd)
  · intro x hx
    have hx' : x ∈ s.completed.drop s.handled := by rw [← hs'] at hx; exact hx
    have hne : x.1 ≠ i := by
      rintro rfl
      exact hhead (List.mem_map_of_mem (List.mem_append_right _ hx'))
    rw [hstatus, Function.update_of_ne hne]
    exact h.status x hx'
  · intro q t hq
    rw [hpublished]
    rcases hrequest q t hq with ⟨-, rfl⟩ | ⟨-, hq'⟩
    · exact List.mem_append_right _ (List.mem_singleton_self _)
    · exact List.mem_append_left _ (h.own q t hq')

omit [DecidableEq B] in
/-- A process whose request is done frees its descriptors. -/
lemma leave (h : Inv s) (hp : (s.pc p).request = some r) (hd : s.disk r.b = false) :
    Inv (((({ s with infoB := Function.update s.infoB r.idx.1 none }.give r.idx.1).give
      r.idx.2.1).give r.idx.2.2).setPc p .out) := by
  generalize hs' : ((({ s with infoB := Function.update s.infoB r.idx.1 none }.give r.idx.1).give
    r.idx.2.1).give r.idx.2.2).setPc p .out = s'
  have hpc : ∀ q, q ≠ p → (s'.pc q).request = (s.pc q).request ∧
    (s'.pc q).buffer = (s.pc q).buffer := by
    intro q hq
    rw [← hs']
    simp only [State.setPc, Function.update_of_ne hq, request_give, buffer_give]
    exact ⟨trivial, trivial⟩
  have hout : s'.pc p = .out := by rw [← hs']; exact Function.update_self ..
  have hrequest : ∀ q t, (s'.pc q).request = some t → q ≠ p ∧ (s.pc q).request = some t := by
    intro q t hq
    have hqp : q ≠ p := by
      rintro rfl
      rw [hout] at hq
      cases hq
    exact ⟨hqp, (hpc q hqp).1.symm.trans hq⟩
  have hnew : ∀ q t, q ≠ p → (s.pc q).request = some t → ∀ x ∈ t.chain, x ∉ r.chain :=
    fun q t hqp hq x hx hmem => hqp (h.disjoint q p t r x hq hp hx hmem)
  refine ⟨⟨?_, ?_, ?_, ?_, ?_⟩, ⟨?_, ?_, ?_, ?_, ?_, ?_, ?_⟩, ⟨?_, ?_, ?_, ?_, ?_, ?_⟩⟩
  · intro q t hq
    obtain ⟨hqp, hq⟩ := hrequest q t hq
    refine (h.chained q t hq).of_eq fun x hx => ?_
    obtain ⟨hxi, hxj, hxk⟩ : x ≠ r.idx.1 ∧ x ≠ r.idx.2.1 ∧ x ≠ r.idx.2.2 := by
      simpa [Request.chain] using hnew q t hqp hq x hx
    rw [← hs']
    exact (desc_give_of_ne hxk).trans ((desc_give_of_ne hxj).trans (desc_give_of_ne hxi))
  · intro q t hq
    obtain ⟨hqp, hq⟩ := hrequest q t hq
    have hne : t.idx.1 ≠ r.idx.1 := fun heq => hqp (h.head_inj hq hp heq)
    rw [← hs']
    exact (Function.update_of_ne hne ..).trans (h.info q t hq)
  · intro q q' t t' x hq hq'
    exact h.disjoint q q' t t' x (hrequest q t hq).2 (hrequest q' t' hq').2
  · intro x hx
    have hfree' : s'.free x = if x ∈ r.chain then true else s.free x := by
      rw [← hs']
      exact update_three s.free r.idx.1 r.idx.2.1 r.idx.2.2 true x
    rw [hfree']
    by_cases hmem : x ∈ r.chain
    · rw [if_pos hmem]
      refine ⟨fun hx' => (by cases hx'), ?_⟩
      rintro ⟨q, t, hq, hxt⟩
      obtain ⟨hqp, hq⟩ := hrequest q t hq
      exact absurd hmem (hnew q t hqp hq x hxt)
    · rw [if_neg hmem, h.free x hx]
      constructor
      · rintro ⟨q, t, hq, hxt⟩
        have hqp : q ≠ p := by
          rintro rfl
          rw [hp] at hq
          exact hmem (Option.some.inj hq ▸ hxt)
        exact ⟨q, t, (hpc q hqp).1.trans hq, hxt⟩
      · rintro ⟨q, t, hq, hxt⟩
        exact ⟨q, t, (hrequest q t hq).2, hxt⟩
  · intro q c hq
    have hqp : q ≠ p := by
      rintro rfl
      rw [hout] at hq
      cases hq
    rw [(hpc q hqp).2] at hq
    rw [← hs']
    exact h.holder q c hq
  · rw [← hs']
    exact h.avail
  · rw [← hs']
    exact h.availIdx
  · rw [← hs']
    exact h.seenIdx
  · rw [← hs']
    exact h.used
  · rw [← hs']
    exact h.usedIdx
  · rw [← hs']
    exact h.used_idx
  · rw [← hs']
    exact h.numbers
  · rw [← hs']
    exact h.nodup
  · intro x hx
    have hx' : x ∈ s.live := by rw [← hs'] at hx; exact hx
    obtain ⟨q, t, hq, rfl, hd'⟩ := h.sound x hx'
    have hqp : q ≠ p := by
      rintro rfl
      rw [hp] at hq
      rw [← Option.some.inj hq, hd] at hd'
      cases hd'
    refine ⟨q, t, (hpc q hqp).1.trans hq, rfl, ?_⟩
    rw [← hs']
    exact hd'
  · intro q t hq hd'
    rw [← hs'] at hd' ⊢
    exact h.complete q t (hrequest q t hq).2 hd'
  · intro q t hq hd'
    rw [← hs'] at hd' ⊢
    exact h.done q t (hrequest q t hq).2 hd'
  · rw [← hs']
    exact h.status
  · intro q t hq
    have hown := h.own q t (hrequest q t hq).2
    rw [← hs']
    exact hown

/-! ### Every step -/

lemma rw (h : Inv s) (hp : (s.pc p).request = none) (hb : s.holder b = some p) (write : Bool) :
    ∃ s', rw s p b write = .ok s' ∧ Inv s' := by
  unfold Virtio.rw
  rcases alloc3Desc_cases s with ⟨i, j, k, hnodup, hfree, halloc⟩ | ⟨s', hs', halloc⟩
  · rw [halloc]
    exact ⟨_, rfl, h.submit hp hb hnodup hfree write⟩
  · rw [halloc]
    refine ⟨_, rfl, (h.unchanged hs').setPc ?_ ?_⟩
    · rw [hs'.request, hp]
      rfl
    · intro c hc
      cases hc
      rw [hs'.rest]
      exact hb

omit [DecidableEq B] in
lemma finish_eq (h : Inv s) (hp : (s.pc p).request = some r) (hd : s.disk r.b = false) :
    finish s p r =
      .ok (((({ s with infoB := Function.update s.infoB r.idx.1 none }.give r.idx.1).give
        r.idx.2.1).give r.idx.2.2).setPc p .out) := by
  have hchain := h.chained p r hp
  have hfree : ∀ x ∈ r.chain, s.free x = false :=
    fun x hx => (h.free x (hchain.lt x hx)).mpr ⟨p, r, hp, hx⟩
  unfold finish
  rw [if_neg (by rw [hd]; exact Bool.false_ne_true),
    freeChain_eq (s := { s with infoB := Function.update s.infoB r.idx.1 none }) hchain hfree]

omit [DecidableEq B] in
lemma finish (h : Inv s)
    (hp : s.pc p = .waitingWoken r) : ∃ s', finish s p r = .ok s' ∧ Inv s' := by
  have hrequest : (s.pc p).request = some r := by rw [hp]; rfl
  by_cases hd : s.disk r.b = true
  · refine ⟨s.setPc p (.waiting r), if_pos hd, h.setPc hrequest.symm ?_⟩
    intro c hc
    cases hc
    exact h.holder p r.b (Pc.buffer_of_request hrequest)
  · have hd' : s.disk r.b = false := by simpa using hd
    exact ⟨_, h.finish_eq hrequest hd', h.leave hrequest hd'⟩

/-- No step panics, and every step keeps the protocol. -/
lemma step (h : Inv s) {e : Event B P} {x : Except Panic (State B P)} (hx : step s e = some x) :
    ∃ s', x = .ok s' ∧ Inv s' := by
  cases e with
  | acquiresleep p b =>
    simp only [Virtio.step] at hx
    split at hx
    · next hp hb =>
      cases hx
      refine ⟨_, rfl, h.of_pc (fun _ => rfl) (fun _ _ => rfl) ?_ s.intr⟩
      intro q c hq
      have hc := h.holder q c hq
      have hne : c ≠ b := by
        rintro rfl
        rw [hb] at hc
        cases hc
      rw [Function.update_of_ne hne, hc]
    · cases hx
  | releasesleep p b =>
    simp only [Virtio.step] at hx
    split at hx
    · next hp =>
      split_ifs at hx with hb
      cases hx
      refine ⟨_, rfl, h.of_pc (fun _ => rfl) (fun _ _ => rfl) ?_ s.intr⟩
      intro q c hq
      have hc := h.holder q c hq
      have hne : c ≠ b := by
        rintro rfl
        rw [hb] at hc
        obtain rfl := Option.some.inj hc
        rw [hp] at hq
        cases hq
      rw [Function.update_of_ne hne, hc]
    · cases hx
  | rw p b write =>
    simp only [Virtio.step] at hx
    split at hx
    · next hp =>
      split_ifs at hx with hb
      obtain ⟨s', hs', hinv⟩ := h.rw (by rw [hp]; rfl) hb.1 write
      exact ⟨s', (Option.some.inj hx).symm.trans hs', hinv⟩
    · cases hx
  | resume p =>
    simp only [Virtio.step] at hx
    split at hx
    · next b write hp =>
      split_ifs at hx
      obtain ⟨s', hs', hinv⟩ :=
        h.rw (p := p) (by rw [hp]; rfl) (h.holder p b (by rw [hp]; rfl)) write
      exact ⟨s', (Option.some.inj hx).symm.trans hs', hinv⟩
    · next r hp =>
      split_ifs at hx
      obtain ⟨s', hs', hinv⟩ := h.finish hp
      exact ⟨s', (Option.some.inj hx).symm.trans hs', hinv⟩
    · cases hx
  | see =>
    simp only [Virtio.step] at hx
    split_ifs at hx with hne
    cases hx
    exact ⟨_, rfl, h.deviceSee hne⟩
  | complete k =>
    simp only [Virtio.step, Option.map_eq_some_iff] at hx
    obtain ⟨y, hy, rfl⟩ := hx
    exact ⟨_, rfl, h.deviceComplete (List.mem_of_getElem? hy)⟩
  | intr =>
    simp only [Virtio.step] at hx
    split_ifs at hx
    cases hx
    exact ⟨_, rfl, h.of_pc (fun _ => rfl) (fun _ _ => rfl) h.holder true⟩
  | intrRound =>
    simp only [Virtio.step] at hx
    split_ifs at hx
    by_cases hne : s.used_idx ≠ s.usedIdx
    · obtain ⟨p, r, -, -, -, heq⟩ := h.intrRound_eq hne
      exact ⟨_, (Option.some.inj hx).symm.trans heq, h.intrRound heq⟩
    · have heq : Virtio.intrRound s = .ok { s with intr := false } := if_neg hne
      exact ⟨_, (Option.some.inj hx).symm.trans heq, h.intrRound heq⟩

omit [DecidableEq B] [DecidableEq P] in
lemma of_fresh (h : Fresh s) : Inv s := by
  have hrequest : ∀ p r, (s.pc p).request ≠ some r := by
    intro p r hp
    rw [h.pc p] at hp
    cases hp
  refine ⟨⟨?_, ?_, ?_, ?_, ?_⟩, ⟨?_, ?_, ?_, ?_, ?_, ?_, ?_⟩, ⟨?_, ?_, ?_, ?_, ?_, ?_⟩⟩
  · exact fun p r hp => absurd hp (hrequest p r)
  · exact fun p r hp => absurd hp (hrequest p r)
  · exact fun p q r t i hp => absurd hp (hrequest p r)
  · intro i hi
    rw [h.free i hi]
    refine ⟨fun hf => (by cases hf), ?_⟩
    rintro ⟨p, r, hp, -⟩
    exact absurd hp (hrequest p r)
  · intro p b hp
    rw [h.pc p] at hp
    cases hp
  · rw [h.published, h.seen]
    exact Ring.nil _ _
  · rw [h.availIdx, h.published]
    rfl
  · rw [h.seenIdx, h.seen]
    rfl
  · rw [h.completed, h.handled]
    exact Ring.nil _ _
  · rw [h.usedIdx, h.completed]
    rfl
  · rw [h.used_idx, h.handled]
    rfl
  · rw [h.published, h.serial]
    rfl
  · rw [live, h.published, h.pending, h.completed]
    simp
  · intro x hx
    rw [live, h.published, h.pending, h.completed] at hx
    simp at hx
  · exact fun p r hp => absurd hp (hrequest p r)
  · exact fun p r hp => absurd hp (hrequest p r)
  · intro x hx
    rw [h.completed] at hx
    simp at hx
  · exact fun p r hp => absurd hp (hrequest p r)

lemma of_reachable (h : (machine B P).Reachable s) : Inv s := by
  refine h.invariant (fun s (hs : Fresh s) => of_fresh hs) ?_
  intro s e s' hs hnext
  obtain ⟨x, hx, hok⟩ := Option.bind_eq_some_iff.mp hnext
  obtain ⟨t, rfl, ht⟩ := hs.step hx
  obtain rfl := Option.some.inj hok
  exact ht

end Inv

/-- What the driver guarantees in a state and for the steps from it. -/
structure Protocol (s : State B P) : Prop where
  /-- The descriptors in use are those of the requests in flight. -/
  free : ∀ i < NUM, s.free i = false ↔ ∃ p r, (s.pc p).request = some r ∧ i ∈ r.chain
  /-- A chain has three different descriptors. -/
  chain : ∀ p r, (s.pc p).request = some r → r.chain.Nodup ∧ ∀ i ∈ r.chain, i < NUM
  disjoint : ∀ p q r t, (s.pc p).request = some r → (s.pc q).request = some t → p ≠ q →
    r.chain.Disjoint t.chain
  /-- A completion clears the flag of the buffer that submitted the chain, and no other one. -/
  completion : s.used_idx ≠ s.usedIdx → ∃ p r s', (s.pc p).request = some r ∧
    s.usedRing (s.used_idx.toNat % NUM) = r.idx.1 ∧ intrRound s = .ok s' ∧
    s'.disk = Function.update s.disk r.b false
  /-- The published requests have different numbers, and those in flight are among them. -/
  numbers : (s.published.map Prod.snd).Nodup
  own : ∀ p r, (s.pc p).request = some r → r.entry ∈ s.published
  /-- Only a process whose request the device has completed returns. -/
  returns : ∀ p r s', (s.pc p).request = some r → Virtio.step s (.resume p) = some (.ok s') →
    s'.pc p = .out → r.entry ∈ s.completed
  /-- `alloc3_desc` takes three descriptors or leaves all as they were. -/
  alloc3 : (∃ i j k s', [i, j, k].Nodup ∧ (∀ x ∈ [i, j, k], x < NUM ∧ s.free x = true) ∧
      alloc3Desc s = .ok (some (i, j, k), s') ∧
      ∀ x, s'.free x = if x ∈ [i, j, k] then false else s.free x) ∨
    ∃ s', alloc3Desc s = .ok (none, s') ∧ s'.free = s.free
  /-- Nothing panics. -/
  safe : ∀ e x, Virtio.step s e ≠ some (.error x)

/-- In every state of every run of the driver with a device that answers each request once, the
protocol is kept. -/
theorem request_protocol (h : (machine B P).Reachable s) : Protocol s := by
  have hinv := Inv.of_reachable h
  refine ⟨hinv.free, ?_, ?_, ?_, ?_, hinv.own, ?_, ?_, ?_⟩
  · exact fun p r hp => ⟨(hinv.chained p r hp).nodup, (hinv.chained p r hp).lt⟩
  · intro p q r t hp hq hpq i hi hi'
    exact hpq (hinv.disjoint p q r t i hp hq hi hi')
  · intro hne
    obtain ⟨p, r, hp, hget, -, heq⟩ := hinv.intrRound_eq hne
    obtain ⟨hlt, hentry⟩ := List.getElem?_eq_some_iff.mp hget
    have hfirst := hinv.used.exists_get (by rwa [List.length_map])
    rw [List.getElem?_map, hget] at hfirst
    refine ⟨p, r, _, hp, ?_, heq, rfl⟩
    rw [hinv.used_idx, Counter.toNat_mod16 _ (by decide)]
    exact (Option.some.inj hfirst).symm
  · rw [hinv.numbers]
    exact List.nodup_range
  · intro p r s' hp hstep hout
    simp only [Virtio.step] at hstep
    split at hstep
    · next hpc =>
      rw [hpc] at hp
      cases hp
    · next t hpc =>
      split_ifs at hstep
      have hpr : (s.pc p).request = some t := by rw [hpc]; rfl
      obtain rfl : t = r := Option.some.inj (hpr.symm.trans hp)
      by_cases hd : s.disk t.b = true
      · -- it would sleep again
        rw [finish, if_pos hd] at hstep
        cases hstep
        simp [State.setPc] at hout
      · exact hinv.done p t hp (by simpa using hd)
    · cases hstep
  · rcases alloc3Desc_cases s with ⟨i, j, k, hnodup, hfree, halloc⟩ | ⟨s', hs', halloc⟩
    · exact .inl ⟨i, j, k, _, hnodup, hfree, halloc, update_three s.free i j k false⟩
    · exact .inr ⟨s', halloc, hs'.free⟩
  · intro e x hx
    obtain ⟨s', hs', -⟩ := hinv.step hx
    cases hs'

/-- The driver at the start. -/
def fresh (B P : Type) : State B P where
  free := fun _ => true
  desc := fun _ => ⟨.null, 0, 0, 0⟩
  infoB := fun _ => none
  status := fun _ => 0
  availRing := fun _ => 0
  availIdx := 0
  usedRing := fun _ => 0
  usedIdx := 0
  used_idx := 0
  disk := fun _ => false
  holder := fun _ => none
  pc := fun _ => .out
  intr := false
  seenIdx := 0
  pending := []
  serial := 0
  published := []
  completed := []
  seen := 0
  handled := 0

omit [DecidableEq B] [DecidableEq P] in
lemma fresh_fresh : Fresh (fresh B P) :=
  ⟨fun _ _ => rfl, rfl, rfl, rfl, fun _ => rfl, rfl, rfl, rfl, rfl, rfl, rfl, rfl⟩

/-- Two requests are in flight, a third process has no descriptors, and the second request is
completed. -/
def busy : State (Fin 3) (Fin 3) :=
  ((machine (Fin 3) (Fin 3)).exec (fresh _ _)
    [.acquiresleep 0 0, .acquiresleep 1 1, .acquiresleep 2 2, .rw 0 0 true,
      .rw 1 1 false, .rw 2 2 true,
      .see, .see, .complete 1, .intr]).getD (fresh _ _)

theorem request_protocol_busy : (machine (Fin 3) (Fin 3)).Reachable busy ∧
    busy.completed = [(3, 1)] ∧ busy.free 5 = false ∧ busy.free 6 = true ∧ Protocol busy := by
  have hreach : (machine (Fin 3) (Fin 3)).Reachable busy :=
    .getD_exec fresh_fresh (by decide +kernel)
  exact ⟨hreach, by decide +kernel, by decide +kernel, by decide +kernel, request_protocol hreach⟩

end Xv6.Virtio
