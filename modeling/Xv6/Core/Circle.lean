import Mathlib.Tactic

/-!
# Circular doubly linked lists

Nodes with a pointer to the next and one to the previous node. A circle goes through a header and
the members of a list, each once, and back to the header. A node is unlinked, or linked in behind
the header, by writing four pointers; a scan follows the pointers until it is back at the header.
-/

namespace Core

structure Links (α : Type*) where
  next : α → α
  prev : α → α

namespace Links

variable {α : Type*}

/-- The two pointers between `a` and `b`. -/
def Linked (m : Links α) (a b : α) : Prop := m.next a = b ∧ m.prev b = a

/-- The circle in the other direction. -/
def flip (m : Links α) : Links α := ⟨m.prev, m.next⟩

variable [DecidableEq α]

def setNext (m : Links α) (a b : α) : Links α := { m with next := Function.update m.next a b }

def setPrev (m : Links α) (a b : α) : Links α := { m with prev := Function.update m.prev a b }

/-- Take `b` out. -/
def unlink (m : Links α) (b : α) : Links α :=
  let m := m.setPrev (m.next b) (m.prev b)
  m.setNext (m.prev b) (m.next b)

/-- Put `b` behind the header. -/
def linkFirst (m : Links α) (h b : α) : Links α :=
  let m := m.setNext b (m.next h)
  let m := m.setPrev b h
  let m := m.setPrev (m.next h) b
  m.setNext h b

/-- Follow the pointers until one of the nodes is wanted, for at most so many nodes. -/
def scan (next : α → α) (h : α) (wanted : α → Bool) : ℕ → α → Option α
  | 0, _ => none
  | k + 1, a => if a = h then none else if wanted a then some a else scan next h wanted k (next a)

variable {m : Links α} {a b c h x y : α} {l l₁ l₂ : List α}

lemma isChain_setNext (hchain : l.IsChain m.Linked) (ha : a ∉ l.dropLast) :
    l.IsChain (m.setNext a b).Linked := by
  induction hchain with
  | nil => exact .nil
  | singleton x => exact .singleton x
  | @cons_cons x y l hxy _ ih =>
    rw [List.dropLast_cons_cons, List.mem_cons, not_or] at ha
    refine .cons_cons ⟨?_, hxy.2⟩ (ih ha.2)
    exact (Function.update_of_ne (Ne.symm ha.1) _ _).trans hxy.1

lemma isChain_setPrev (hchain : l.IsChain m.Linked) (ha : a ∉ l.tail) :
    l.IsChain (m.setPrev a b).Linked := by
  induction hchain with
  | nil => exact .nil
  | singleton x => exact .singleton x
  | @cons_cons x y l hxy _ ih =>
    rw [List.tail_cons, List.mem_cons, not_or] at ha
    refine .cons_cons ⟨hxy.1, ?_⟩ (ih ha.2)
    exact (Function.update_of_ne (Ne.symm ha.1) _ _).trans hxy.2

end Links

/-- The circle through the header `h` and the members `l`. -/
structure Circle {α : Type*} (m : Links α) (h : α) (l : List α) : Prop where
  nodup : (h :: l).Nodup
  chain : (h :: (l ++ [h])).IsChain m.Linked

namespace Circle

open Links

variable {α : Type*} {m : Links α} {a b c h x y : α} {l l₁ l₂ : List α}

/-- The header alone. -/
lemma nil (hnext : m.next h = h) (hprev : m.prev h = h) : Circle m h [] where
  nodup := List.nodup_singleton h
  chain := .cons_cons ⟨hnext, hprev⟩ (.singleton h)

lemma flip (hm : Circle m h l) : Circle m.flip h l.reverse := by
  refine ⟨?_, ?_⟩
  · rw [List.nodup_cons, List.mem_reverse, List.nodup_reverse, ← List.nodup_cons]
    exact hm.nodup
  · have hreverse : h :: (l.reverse ++ [h]) = (h :: (l ++ [h])).reverse := by simp
    rw [hreverse, List.isChain_reverse]
    exact hm.chain.imp fun x y hxy => ⟨hxy.2, hxy.1⟩

/-- Going on and back leads to where one was. -/
lemma prev_next (hm : Circle m h l) (hx : x ∈ h :: l) : m.prev (m.next x) = x := by
  have hchain : ((h :: l) ++ [h]).IsChain m.Linked := hm.chain
  obtain ⟨l₁, l₂, hl⟩ := List.append_of_mem hx
  obtain ⟨y, l₃, hy⟩ := List.exists_cons_of_ne_nil (by simp : l₂ ++ [h] ≠ [])
  rw [hl, List.append_assoc, List.cons_append, hy, List.isChain_split,
    List.isChain_cons_cons] at hchain
  rw [hchain.2.1.1, hchain.2.1.2]

lemma next_prev (hm : Circle m h l) (hx : x ∈ h :: l) : m.next (m.prev x) = x := by
  refine hm.flip.prev_next ?_
  rw [List.mem_cons, List.mem_reverse, ← List.mem_cons]
  exact hx

variable [DecidableEq α]

lemma unlink (hm : Circle m h (l₁ ++ b :: l₂)) : Circle (m.unlink b) h (l₁ ++ l₂) := by
  have hnodup : ((h :: l₁) ++ b :: l₂).Nodup := hm.nodup
  have hchain : ((h :: l₁) ++ b :: (l₂ ++ [h])).IsChain m.Linked := by simpa using hm.chain
  rw [List.nodup_append] at hnodup
  obtain ⟨hleft, hright, hdisjoint⟩ := hnodup
  have hhead : h ∉ b :: l₂ := fun hmem => hdisjoint h List.mem_cons_self h hmem rfl
  refine ⟨?_, ?_⟩
  · have hsublist : (h :: (l₁ ++ l₂)).Sublist (h :: (l₁ ++ b :: l₂)) := by simp
    exact hm.nodup.sublist hsublist
  -- the node before and the node behind
  obtain ⟨A, a, hA⟩ : ∃ A a, h :: l₁ = A ++ [a] :=
    ⟨_, _, (List.dropLast_append_getLast (List.cons_ne_nil h l₁)).symm⟩
  obtain ⟨c, C, hC⟩ := List.exists_cons_of_ne_nil (by simp : l₂ ++ [h] ≠ [])
  have ha : a ∈ h :: l₁ := by rw [hA]; simp
  have hc : c ∈ l₂ ++ [h] := by rw [hC]; simp
  have hend : (l₂ ++ [h]).Nodup := by
    rw [List.nodup_append]
    refine ⟨(List.nodup_cons.mp hright).2, List.nodup_singleton h, ?_⟩
    intro x hx y hy hxy
    rw [hxy, List.mem_singleton.mp hy] at hx
    exact hhead (List.mem_cons_of_mem b hx)
  have hcl : c ∉ l₁ := by
    intro hmem
    rcases List.mem_append.mp hc with hc | hc
    · exact hdisjoint c (List.mem_cons_of_mem h hmem) c (List.mem_cons_of_mem b hc) rfl
    · rw [List.mem_singleton.mp hc] at hmem
      exact (List.nodup_cons.mp hleft).1 hmem
  have hbc : b ≠ c := by
    rintro rfl
    rcases List.mem_append.mp hc with hc | hc
    · exact (List.nodup_cons.mp hright).1 hc
    · rw [List.mem_singleton.mp hc] at hhead
      exact hhead List.mem_cons_self
  rw [hA, hC, List.append_assoc, List.singleton_append, List.isChain_split,
    List.isChain_cons_cons, List.isChain_cons_cons] at hchain
  obtain ⟨hchainA, ⟨hab, hba⟩, ⟨hbc', hcb⟩, hchainC⟩ := hchain
  have hprev : (m.setPrev c a).prev b = a := (Function.update_of_ne hbc _ _).trans hba
  have hnext : (m.setPrev c a).next b = c := hbc'
  have hunlink : m.unlink b = (m.setPrev c a).setNext a c := by
    simp only [Links.unlink, hbc', hba, hprev, hnext]
  rw [hunlink]
  show ((h :: (l₁ ++ l₂ ++ [h]))).IsChain _
  rw [List.append_assoc, ← List.cons_append, hA, hC, List.append_assoc, List.singleton_append,
    List.isChain_split, List.isChain_cons_cons]
  refine ⟨isChain_setNext (isChain_setPrev hchainA ?_) ?_, ⟨Function.update_self .., ?_⟩,
    isChain_setNext (isChain_setPrev hchainC ?_) ?_⟩
  · rw [← hA]
    exact hcl
  · rw [hA, List.nodup_append] at hleft
    rw [List.dropLast_concat]
    exact fun hmem => hleft.2.2 a hmem a (List.mem_singleton_self a) rfl
  · exact Function.update_self ..
  · rw [hC] at hend
    exact (List.nodup_cons.mp hend).1
  · rw [← hC, List.dropLast_concat]
    exact fun hmem => hdisjoint a ha a (List.mem_cons_of_mem b hmem) rfl

lemma linkFirst (hm : Circle m h l) (hb : b ∉ h :: l) : Circle (m.linkFirst h b) h (b :: l) := by
  obtain ⟨hhl, hl⟩ := List.nodup_cons.mp hm.nodup
  obtain ⟨hbh, hbl⟩ := not_or.mp (fun hmem => hb (List.mem_cons.mpr hmem))
  refine ⟨?_, ?_⟩
  · rw [List.nodup_cons, List.nodup_cons, List.mem_cons, not_or]
    exact ⟨⟨Ne.symm hbh, hhl⟩, hbl, hl⟩
  obtain ⟨c, C, hC⟩ := List.exists_cons_of_ne_nil (by simp : l ++ [h] ≠ [])
  have hbC : b ∉ c :: C := by
    rw [← hC, List.mem_append, List.mem_singleton, not_or]
    exact ⟨hbl, hbh⟩
  have hend : (c :: C).Nodup := by
    rw [← hC, List.nodup_append]
    refine ⟨hl, List.nodup_singleton h, ?_⟩
    intro x hx y hy hxy
    rw [hxy, List.mem_singleton.mp hy] at hx
    exact hhl hx
  have hchain := hm.chain
  rw [hC, List.isChain_cons_cons] at hchain
  obtain ⟨⟨hhc, hch⟩, hchainC⟩ := hchain
  have hbc : b ≠ c := fun heq => hbC (heq ▸ List.mem_cons_self)
  have hnext : ((m.setNext b c).setPrev b h).next h = c :=
    (Function.update_of_ne (Ne.symm hbh) _ _).trans hhc
  have hlink : m.linkFirst h b = (((m.setNext b c).setPrev b h).setPrev c b).setNext h b := by
    simp only [Links.linkFirst, hhc, hnext]
  rw [hlink]
  show (h :: b :: (l ++ [h])).IsChain _
  rw [hC, List.isChain_cons_cons, List.isChain_cons_cons]
  refine ⟨⟨Function.update_self .., ?_⟩, ⟨?_, Function.update_self ..⟩, ?_⟩
  · exact (Function.update_of_ne hbc _ _).trans (Function.update_self ..)
  · exact (Function.update_of_ne hbh _ _).trans (Function.update_self ..)
  · refine isChain_setNext (isChain_setPrev (isChain_setPrev (isChain_setNext hchainC ?_) ?_) ?_) ?_
    · exact fun hmem => hbC (List.mem_of_mem_dropLast hmem)
    · exact fun hmem => hbC (List.mem_cons_of_mem c hmem)
    · exact (List.nodup_cons.mp hend).1
    · rw [← hC, List.dropLast_concat]
      exact hhl

/-- A scan from a node on finds the first wanted one. -/
lemma scan_of_chain {wanted : α → Bool} {k : ℕ} (hchain : (l ++ [h]).IsChain m.Linked) (hh : h ∉ l)
    (hk : l.length < k) (ha : (l ++ [h]).head? = some a) :
    scan m.next h wanted k a = l.find? wanted := by
  induction l generalizing a k with
  | nil =>
    obtain ⟨k, rfl⟩ := Nat.exists_eq_add_of_lt hk
    obtain rfl : h = a := by simpa using ha
    simp [scan]
  | cons x l ih =>
    cases k with
    | zero => cases hk
    | succ k =>
      obtain rfl : x = a := by simpa using ha
      obtain ⟨hhx, hhl⟩ := not_or.mp (fun hmem => hh (List.mem_cons.mpr hmem))
      obtain ⟨c, C, hC⟩ := List.exists_cons_of_ne_nil (by simp : l ++ [h] ≠ [])
      rw [List.cons_append, hC, List.isChain_cons_cons, ← hC] at hchain
      rw [scan, if_neg (Ne.symm hhx), List.find?_cons]
      cases wanted x with
      | true => rfl
      | false =>
        refine ih hchain.2 hhl (Nat.lt_of_succ_lt_succ hk) ?_
        rw [hC, hchain.1.1]
        rfl

/-- The scan from the header finds the first wanted member. -/
lemma scan_next (hm : Circle m h l) {wanted : α → Bool} {k : ℕ} (hk : l.length < k) :
    scan m.next h wanted k (m.next h) = l.find? wanted := by
  obtain ⟨c, C, hC⟩ := List.exists_cons_of_ne_nil (by simp : l ++ [h] ≠ [])
  have hchain := hm.chain
  rw [hC, List.isChain_cons_cons, ← hC] at hchain
  refine scan_of_chain hchain.2 (List.nodup_cons.mp hm.nodup).1 hk ?_
  rw [hC, hchain.1.1]
  rfl

end Circle

end Core
