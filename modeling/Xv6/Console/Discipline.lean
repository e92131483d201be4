import Xv6.Console.Basic

/-!
# The line discipline of the console

The three indices are positions in the stream of typed characters, modulo `2 ^ 32`. Erasing stays
behind the write index, and what the readers get is a beginning of the committed stream, with a read
of no bytes for each control-D.
-/

namespace Xv6.Console

open Core State

variable {P : Type} {s s' : State P} {p q : P} {c : Read} {n : ℕ}

/-- The indices and the array, against what was typed, committed and consumed. -/
structure Indices (s : State P) : Prop where
  ring : Ring INPUT_BUF s.buf s.typed s.consumed.length
  r : s.r = .ofNat s.consumed.length
  w : s.w = .ofNat s.committed.length
  e : s.e = .ofNat s.typed.length
  consumed : s.consumed <+: s.committed
  committed : s.committed <+: s.typed
  full : s.typed.length = s.consumed.length + INPUT_BUF → s.committed = s.typed

namespace Indices

lemma length_le (h : Indices s) : s.typed.length ≤ s.consumed.length + 128 := h.ring.le_add

lemma e_sub_r (h : Indices s) : (s.e - s.r).toNat = s.typed.length - s.consumed.length := by
  have hle := h.length_le
  rw [h.e, h.r]
  exact Counter.toNat_sub h.ring.start_le (by omega)

lemma w_sub_r (h : Indices s) : (s.w - s.r).toNat = s.committed.length - s.consumed.length := by
  have hle := h.length_le
  have hw := h.committed.length_le
  rw [h.w, h.r]
  exact Counter.toNat_sub h.consumed.length_le (by omega)

lemma e_sub_w (h : Indices s) : (s.e - s.w).toNat = s.typed.length - s.committed.length := by
  have hle := h.length_le
  have hr := h.consumed.length_le
  rw [h.e, h.w]
  exact Counter.toNat_sub h.committed.length_le (by omega)

lemma e_eq_w_iff (h : Indices s) : s.e = s.w ↔ s.committed.length = s.typed.length := by
  have hle := h.length_le
  have hr := h.consumed.length_le
  rw [h.e, h.w, eq_comm]
  exact Counter.eq_iff h.committed.length_le (by omega)

lemma r_eq_w_iff (h : Indices s) : s.r = s.w ↔ s.consumed.length = s.committed.length := by
  have hle := h.length_le
  have hw := h.committed.length_le
  rw [h.r, h.w]
  exact Counter.eq_iff h.consumed.length_le (by omega)

/-- A character that is not committed is erased. -/
lemma erase (h : Indices s) (hne : s.e ≠ s.w) : Indices s.erase := by
  have hlt : s.committed.length < s.typed.length :=
    lt_of_le_of_ne h.committed.length_le fun heq => hne (h.e_eq_w_iff.mpr heq)
  have hr := h.consumed.length_le
  have hle := h.length_le
  have hlast : s.typed.dropLast = s.typed.take (s.typed.length - 1) := List.dropLast_eq_take ..
  refine ⟨?_, h.r, h.w, ?_, h.consumed, ?_, ?_⟩
  · simp only [State.erase, hlast]
    exact h.ring.take (by omega)
  · simp only [State.erase, h.e, List.length_dropLast]
    obtain ⟨k, hk⟩ : ∃ k, s.typed.length = k + 1 := ⟨s.typed.length - 1, by omega⟩
    rw [hk]
    exact Counter.pred k
  · simp only [State.erase, hlast]
    exact List.prefix_take_iff.mpr ⟨h.committed, by omega⟩
  · simp only [State.erase, List.length_dropLast, INPUT_BUF]
    omega

lemma killLine (h : Indices s) (k : ℕ) : Indices (killLine k s) := by
  induction k generalizing s with
  | zero => exact h
  | succ k ih =>
    unfold Console.killLine
    split_ifs with hloop
    · exact ih (h.erase hloop.1)
    · exact h

/-- What holds after a character was stored, up to the need to commit it. -/
lemma store (h : Indices s) (hfree : s.e - s.r < UInt32.ofNat INPUT_BUF) (ch : UInt8) :
    Ring INPUT_BUF (s.store ch).buf (s.store ch).typed s.consumed.length ∧
      (s.store ch).e = .ofNat (s.store ch).typed.length ∧ s.committed <+: (s.store ch).typed := by
  have hlt : s.typed.length < s.consumed.length + INPUT_BUF := by
    have hdist : (s.e - s.r).toNat < INPUT_BUF := hfree
    rw [h.e_sub_r] at hdist
    omega
  have hplace : s.e.toNat % INPUT_BUF = s.typed.length % INPUT_BUF := by
    rw [h.e]
    exact Counter.toNat_mod _ (by decide)
  refine ⟨?_, ?_, ?_⟩
  · simp only [State.store, hplace]
    exact h.ring.push hlt ch
  · simp only [State.store, h.e, List.length_append, List.length_singleton]
    exact Counter.succ _
  · exact h.committed.trans (List.prefix_append _ _)

lemma input (h : Indices s) (hfree : s.e - s.r < UInt32.ofNat INPUT_BUF) (ch : ℤ) :
    Indices (input s ch) := by
  obtain ⟨hring, he, hcommitted⟩ := h.store hfree (.ofInt ch)
  unfold Console.input
  dsimp only
  split_ifs with hcommit
  · exact ⟨hring, h.r, he, he, h.consumed.trans hcommitted, List.prefix_refl _, fun _ => rfl⟩
  · refine ⟨hring, h.r, h.w, he, h.consumed, hcommitted, ?_⟩
    -- a full buffer would have been committed
    intro hlength
    refine absurd (.inr (.inr ?_)) hcommit
    rw [he, show (s.store (.ofInt ch)).r = s.r from rfl, h.r]
    exact (Counter.eq_add_iff hring.start_le hring.le_add (by decide)).mpr hlength

lemma consoleintr (h : Indices s) (ch : ℤ) : Indices (consoleintr s ch) := by
  unfold Console.consoleintr
  split
  · exact h
  split
  · exact h.killLine _
  split
  · split_ifs with hne
    · exact h.erase hne
    · exact h
  split
  · next hfree => exact h.input hfree.2 _
  · exact h

/-- A character is taken out. -/
lemma consume (h : Indices s) (hne : s.r ≠ s.w) :
    Indices { s with
      r := s.r + 1
      consumed := s.consumed ++ [s.buf (s.r.toNat % INPUT_BUF)] } := by
  have hlt : s.consumed.length < s.committed.length :=
    lt_of_le_of_ne h.consumed.length_le fun heq => hne (h.r_eq_w_iff.mpr heq)
  have hlt' := hlt.trans_le h.committed.length_le
  have hplace : s.r.toNat % INPUT_BUF = s.consumed.length % INPUT_BUF := by
    rw [h.r]
    exact Counter.toNat_mod _ (by decide)
  have hfirst : s.committed[s.consumed.length]? = some (s.buf (s.r.toNat % INPUT_BUF)) := by
    rw [hplace, ← h.ring.exists_get hlt', List.prefix_iff_eq_take.mp h.committed,
      List.getElem?_take_of_lt hlt]
  refine ⟨?_, ?_, h.w, h.e, ?_, h.committed, ?_⟩
  · rw [List.length_append]
    exact h.ring.pop hlt'
  · rw [List.length_append, h.r]
    exact Counter.succ _
  · obtain ⟨t, ht⟩ := h.consumed
    rw [← ht, List.getElem?_append_right le_rfl, Nat.sub_self] at hfirst
    cases t with
    | nil => cases hfirst
    | cons b t =>
      obtain rfl : b = s.buf (s.r.toNat % INPUT_BUF) := by simpa using hfirst
      exact ⟨t, by rw [← ht, List.append_assoc]; rfl⟩
  · intro hfull
    have hle := h.length_le
    simp only [List.length_append, List.length_singleton, INPUT_BUF] at hfull
    omega

variable [DecidableEq P]

lemma readChar (h : Indices s) (hne : s.r ≠ s.w) (p : P) (c : Read) (n : ℕ) :
    Indices (readChar s p c n) := by
  unfold Console.readChar
  dsimp only
  split_ifs with hD htarget hdst hnewline
  · rw [UInt32.add_sub_cancel, List.dropLast_concat]
    exact { h with }
  · exact { h.consume hne with }
  · exact { h.consume hne with }
  · exact { h.consume hne with }
  · exact { h.consume hne with }

lemma next (h : Indices s) {ev : Event P} (hnext : next s ev = some s') : Indices s' := by
  cases ev with
  | intr ch =>
    simp only [Console.next] at hnext
    split_ifs at hnext
    cases hnext
    exact h.consoleintr ch
  | read p dst n =>
    simp only [Console.next] at hnext
    split at hnext
    · cases hnext
      exact { h with }
    · cases hnext
  | step p =>
    simp only [Console.next] at hnext
    split at hnext
    · cases hnext
      unfold readRound
      split_ifs with hn hempty
      · exact { h with }
      · exact { h with }
      · exact h.readChar hempty p _ _
      · exact { h with }
    · split_ifs at hnext
      cases hnext
      exact { h with }
    · cases hnext
    · cases hnext
  | kill p =>
    cases hnext
    exact { h with }

end Indices

/-! ### Erasing -/

/-- The characters that erase. -/
def Erases (ch : ℤ) : Prop := ch = C 'U' ∨ ch = C 'H' ∨ ch = 127

instance (ch : ℤ) : Decidable (Erases ch) := inferInstanceAs (Decidable (_ ∨ _ ∨ _))

/-- Only uncommitted characters went away. -/
structure Erased (s s' : State P) : Prop where
  r : s'.r = s.r
  w : s'.w = s.w
  committed : s'.committed = s.committed
  typed : s'.typed <+: s.typed
  kept : s.committed <+: s'.typed

lemma Erased.refl (h : Indices s) : Erased s s := ⟨rfl, rfl, rfl, List.prefix_refl _, h.committed⟩

lemma Erased.erase (h : Indices s) (hne : s.e ≠ s.w) : Erased s s.erase :=
  ⟨rfl, rfl, rfl, List.dropLast_prefix _, (h.erase hne).committed⟩

lemma Erased.trans {t : State P} (h : Erased s s') (h' : Erased s' t) : Erased s t where
  r := h'.r.trans h.r
  w := h'.w.trans h.w
  committed := h'.committed.trans h.committed
  typed := h'.typed.trans h.typed
  kept := h.committed ▸ h'.kept

lemma Erased.killLine (h : Indices s) (k : ℕ) : Erased s (killLine k s) := by
  induction k generalizing s with
  | zero => exact .refl h
  | succ k ih =>
    unfold Console.killLine
    split_ifs with hloop
    · exact (Erased.erase h hloop.1).trans (ih (h.erase hloop.1))
    · exact .refl h

lemma erased_consoleintr (h : Indices s) {ch : ℤ}
    (hch : Erases ch) : Erased s (consoleintr s ch) := by
  unfold consoleintr
  split
  · exact .refl h
  split
  · exact .killLine h _
  next hU =>
  split
  · split_ifs with hne
    · exact .erase h hne
    · exact .refl h
  · next hH => exact absurd hch (not_or.mpr ⟨hU, hH⟩)

end Xv6.Console
