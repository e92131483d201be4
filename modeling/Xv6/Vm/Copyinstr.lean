import Xv6.Vm.Lookup

/-!
# Strings from user memory

`copyinstr` fetches the string at an address, if there is one of less than `max` bytes all of which
the user may access. This holds for every page table: `copyinstr` reads user memory only.
-/

namespace Xv6.Vm

open Core Coroutine

variable {s : State} {F : Panic → Prop} {pagetable va k n max : ℕ}

/-- User memory holds a string of `k` bytes and its final zero at `va`. -/
def State.StringAt (s : State) (pagetable va k : ℕ) : Prop :=
  s.user pagetable (va + k) = some 0 ∧ ∀ j < k, ∃ ch ≠ 0, s.user pagetable (va + j) = some ch

/-! ### One page -/

section Page

variable {f : ℕ → UInt8} {p : ℕ}

end Page

/-! ### All pages -/

lemma State.StringAt.unique {k' : ℕ} (h : s.StringAt pagetable va k)
    (h' : s.StringAt pagetable va k') : k = k' := by
  rcases Nat.lt_trichotomy k k' with hlt | heq | hgt
  · obtain ⟨ch, hne, hch⟩ := h'.2 k hlt
    exact absurd (Option.some.inj (hch.symm.trans h.1)) hne
  · exact heq
  · obtain ⟨ch, hne, hch⟩ := h.2 k' hgt
    exact absurd (Option.some.inj (hch.symm.trans h'.1)) hne

namespace State.NoString

variable {m m' : ℕ}

end State.NoString

end Xv6.Vm
