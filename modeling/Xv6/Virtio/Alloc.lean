import Xv6.Virtio.Basic

/-!
# Descriptors

`alloc3_desc` takes three descriptors or leaves all as they were, and `free_chain` gives back the
three descriptors of a request. Neither panics.
-/

namespace Xv6.Virtio

open Core State

variable {B P : Type} {s s' : State B P} {i j k : ℕ}

/-- The request that a process has published. -/
def Pc.request : Pc B → Option (Request B)
  | .waiting r | .waitingWoken r => some r
  | .out | .starved _ _ | .starvedWoken _ _ => none

/-- The buffer with which a process is in `virtio_disk_rw`. -/
def Pc.buffer : Pc B → Option B
  | .waiting r | .waitingWoken r => some r.b
  | .starved b _ | .starvedWoken b _ => some b
  | .out => none

/-- The descriptors of a request. -/
def Request.chain (r : Request B) : List ℕ := [r.idx.1, r.idx.2.1, r.idx.2.2]

/-- The head and the number of a request. -/
def Request.entry (r : Request B) : ℕ × ℕ := (r.idx.1, r.serial)

lemma request_wakeupFree (p : P) : (s.wakeupFree.pc p).request = (s.pc p).request := by
  unfold wakeupFree
  dsimp only
  split
  · next hp => rw [hp]; rfl
  · rfl

lemma buffer_wakeupFree (p : P) : (s.wakeupFree.pc p).buffer = (s.pc p).buffer := by
  unfold wakeupFree
  dsimp only
  split
  · next hp => rw [hp]; rfl
  · rfl

lemma request_give (p : P) : ((s.give i).pc p).request = (s.pc p).request :=
  request_wakeupFree (s := { s with desc := _, free := _ }) p

lemma buffer_give (p : P) : ((s.give i).pc p).buffer = (s.pc p).buffer :=
  buffer_wakeupFree (s := { s with desc := _, free := _ }) p

/-- Three places are set to one value. -/
lemma update_three (f : ℕ → Bool) (i j k : ℕ) (v : Bool) (x : ℕ) :
    Function.update (Function.update (Function.update f i v) j v) k v x =
      if x ∈ [i, j, k] then v else f x := by
  simp only [Function.update_apply, List.mem_cons, List.not_mem_nil, or_false]
  split_ifs <;> simp_all

/-! ### Taking -/

lemma allocDesc_cases (s : State B P) :
    (∃ i, i < NUM ∧ s.free i = true ∧ allocDesc s = (some i, s.take i)) ∨
      allocDesc s = (none, s) := by
  unfold allocDesc
  split
  · next i hi =>
    exact .inl ⟨i, List.mem_range.mp (List.mem_of_find?_eq_some hi), List.find?_some hi, rfl⟩
  · exact .inr rfl

lemma free_take (hj : (s.take i).free j = true) : j ≠ i ∧ s.free j = true := by
  have hji : j ≠ i := by
    rintro rfl
    simp [State.take] at hj
  exact ⟨hji, by simpa [State.take, hji] using hj⟩

lemma freeDesc_eq (hi : i < NUM) (hfree : s.free i = false) : freeDesc s i = .ok (s.give i) := by
  rw [freeDesc, if_neg (Nat.not_le.mpr hi), if_neg (by rw [hfree]; exact Bool.false_ne_true)]

/-- What the failing paths of `alloc3_desc` leave: some free descriptors were cleared, and some
processes were woken up. -/
structure Unchanged (s s' : State B P) : Prop where
  desc : ∀ i, s.free i = false → s'.desc i = s.desc i
  request : ∀ p, (s'.pc p).request = (s.pc p).request
  buffer : ∀ p, (s'.pc p).buffer = (s.pc p).buffer
  rest : s' = { s with desc := s'.desc, pc := s'.pc }

lemma Unchanged.free (h : Unchanged s s') : s'.free = s.free := by
  rw [h.rest]

lemma Unchanged.refl (s : State B P) : Unchanged s s :=
  ⟨fun _ _ => rfl, fun _ => rfl, fun _ => rfl, rfl⟩

lemma unchanged_give (hi : s.free i = true) : Unchanged s ((s.take i).give i) := by
  refine ⟨?_, fun p => request_give (s := s.take i) p, fun p => buffer_give (s := s.take i) p, ?_⟩
  · intro j hj
    have hji : j ≠ i := by
      rintro rfl
      rw [hi] at hj
      cases hj
    exact Function.update_of_ne hji ..
  · have hfree : Function.update (Function.update s.free i false) i true = s.free := by
      rw [Function.update_idem, ← hi, Function.update_eq_self]
    simp only [State.give, State.take, wakeupFree, hfree]

lemma unchanged_give_give (hi : s.free i = true) (hj : s.free j = true) (hji : j ≠ i) :
    Unchanged s ((((s.take i).take j).give i).give j) := by
  refine ⟨?_, ?_, ?_, ?_⟩
  · intro l hl
    have hli : l ≠ i := by
      rintro rfl
      rw [hi] at hl
      cases hl
    have hlj : l ≠ j := by
      rintro rfl
      rw [hj] at hl
      cases hl
    exact (Function.update_of_ne hlj ..).trans (Function.update_of_ne hli ..)
  · exact fun p => (request_give (s := ((s.take i).take j).give i) p).trans
      (request_give (s := (s.take i).take j) p)
  · exact fun p => (buffer_give (s := ((s.take i).take j).give i) p).trans
      (buffer_give (s := (s.take i).take j) p)
  · have hfree : Function.update
      (Function.update (Function.update (Function.update s.free i false) j
        false) i true) j true = s.free := by
      funext l
      rcases eq_or_ne l j with rfl | hlj
      · rw [Function.update_self, hj]
      rcases eq_or_ne l i with rfl | hli
      · rw [Function.update_of_ne hlj, Function.update_self, hi]
      · simp only [Function.update_of_ne hlj, Function.update_of_ne hli]
    simp only [State.give, State.take, wakeupFree, hfree]

/-- `alloc3_desc` takes three free descriptors, or leaves `free` as it was. -/
lemma alloc3Desc_cases (s : State B P) :
    (∃ i j k, [i, j, k].Nodup ∧ (∀ x ∈ [i, j, k], x < NUM ∧ s.free x = true) ∧
      alloc3Desc s = .ok (some (i, j, k), ((s.take i).take j).take k)) ∨
    ∃ s', Unchanged s s' ∧ alloc3Desc s = .ok (none, s') := by
  unfold alloc3Desc
  rcases allocDesc_cases s with ⟨i, hi, hfi, halloc⟩ | halloc
  swap
  · rw [halloc]
    exact .inr ⟨s, .refl s, rfl⟩
  rw [halloc]
  dsimp only
  rcases allocDesc_cases (s.take i) with ⟨j, hj, hfj, halloc⟩ | halloc
  swap
  · rw [halloc]
    dsimp only
    rw [freeDesc_eq hi (Function.update_self ..)]
    exact .inr ⟨_, unchanged_give hfi, rfl⟩
  rw [halloc]
  dsimp only
  obtain ⟨hji, hfj⟩ := free_take hfj
  rcases allocDesc_cases ((s.take i).take j) with ⟨k, hk, hfk, halloc⟩ | halloc
  swap
  · rw [halloc]
    dsimp only
    have htaken : ((s.take i).take j).free i = false :=
      (Function.update_of_ne hji.symm ..).trans (Function.update_self ..)
    have htaken' : (((s.take i).take j).give i).free j = false :=
      (Function.update_of_ne hji ..).trans (Function.update_self ..)
    rw [freeDesc_eq hi htaken]
    simp only [bind, Except.bind]
    rw [freeDesc_eq hj htaken']
    exact .inr ⟨_, unchanged_give_give hfi hfj hji, rfl⟩
  · rw [halloc]
    obtain ⟨hkj, hfk⟩ := free_take hfk
    obtain ⟨hki, hfk⟩ := free_take hfk
    refine .inl ⟨i, j, k, ?_, ?_, rfl⟩
    · simp [hji.symm, hki.symm, hkj.symm]
    · intro x hx
      simp only [List.mem_cons, List.not_mem_nil, or_false] at hx
      rcases hx with rfl | rfl | rfl
      · exact ⟨hi, hfi⟩
      · exact ⟨hj, hfj⟩
      · exact ⟨hk, hfk⟩

/-! ### Giving back -/

/-- The descriptors of a request are chained as the device expects. -/
structure Chained (desc : ℕ → Desc B) (r : Request B) : Prop where
  lt : ∀ i ∈ r.chain, i < NUM
  nodup : r.chain.Nodup
  first : (desc r.idx.1).flags &&& VRING_DESC_F_NEXT ≠ 0 ∧ (desc r.idx.1).next = r.idx.2.1
  second : (desc r.idx.2.1).flags &&& VRING_DESC_F_NEXT ≠ 0 ∧ (desc r.idx.2.1).next = r.idx.2.2
  third : (desc r.idx.2.2).flags &&& VRING_DESC_F_NEXT = 0 ∧ (desc r.idx.2.2).addr = .status r.idx.1

lemma Chained.of_eq {desc desc' : ℕ → Desc B} {r : Request B} (h : Chained desc r)
    (heq : ∀ i ∈ r.chain, desc' i = desc i) : Chained desc' r := by
  have hi : desc' r.idx.1 = desc r.idx.1 := heq _ (by simp [Request.chain])
  have hj : desc' r.idx.2.1 = desc r.idx.2.1 := heq _ (by simp [Request.chain])
  have hk : desc' r.idx.2.2 = desc r.idx.2.2 := heq _ (by simp [Request.chain])
  exact ⟨h.lt, h.nodup, hi ▸ h.first, hj ▸ h.second, hk ▸ h.third⟩

lemma desc_give_of_ne (hij : i ≠ j) : (s.give j).desc i = s.desc i := Function.update_of_ne hij ..

lemma free_give_of_ne (hij : i ≠ j) : (s.give j).free i = s.free i := Function.update_of_ne hij ..

/-- `free_chain` gives back the three descriptors. -/
lemma freeChain_eq {r : Request B} (h : Chained s.desc r)
    (hfree : ∀ i ∈ r.chain, s.free i = false) :
    freeChain (NUM + 1) s r.idx.1 = .ok (((s.give r.idx.1).give r.idx.2.1).give r.idx.2.2) := by
  obtain ⟨hlt, hnodup, ⟨hflag, hnext⟩, ⟨hflag', hnext'⟩, hflag'', -⟩ := h
  obtain ⟨b, ⟨i, j, k⟩, serial⟩ := r
  simp only [Request.chain, List.mem_cons, List.not_mem_nil, or_false, forall_eq_or_imp,
    forall_eq, List.nodup_cons, not_or] at hlt hfree hnodup hflag hflag' hflag'' hnext hnext' ⊢
  obtain ⟨⟨hij, hik⟩, hjk, -⟩ := hnodup
  have hfreej : (s.give i).free j = false := (free_give_of_ne (Ne.symm hij)).trans hfree.2.1
  have hfreek : ((s.give i).give j).free k = false :=
    (free_give_of_ne (Ne.symm hjk)).trans ((free_give_of_ne (Ne.symm hik)).trans hfree.2.2)
  rw [freeChain, freeDesc_eq hlt.1 hfree.1]
  dsimp only
  rw [if_pos hflag, hnext, show NUM = 7 + 1 from rfl, freeChain, freeDesc_eq hlt.2.1 hfreej]
  dsimp only
  rw [desc_give_of_ne (Ne.symm hij), if_pos hflag', hnext', show 7 = 6 + 1 from rfl, freeChain,
    freeDesc_eq hlt.2.2 hfreek]
  dsimp only
  rw [desc_give_of_ne (Ne.symm hjk), desc_give_of_ne (Ne.symm hik), if_neg (not_not.mpr hflag'')]

end Xv6.Virtio
