import Mathlib.Data.List.GetD
import Xv6.Vm.Basic

/-!
# The arguments of a new program

The part of `exec` in `kernel/exec.c` that pushes the argument strings and the array of pointers to
them on the user stack. It is written over any way to copy bytes to user memory; `Layout` says what
the stack page holds when it has worked.
-/

namespace Xv6.Exec

open Core Coroutine

/-- Maximum number of arguments of `exec`, and the length of `ustack`. -/
def MAXARG : ℕ := 32

/-- What must not happen and the source has no check for. -/
inductive Fault
  /-- `ustack` is written at `MAXARG` or beyond. -/
  | ustack
  /-- `sp` wraps below zero. -/
  | wrap
  deriving DecidableEq, Repr

/-- The bytes of a `uint64` in memory. -/
def le64 (w : ℕ) : List UInt8 := (List.range 8).map fun k => UInt8.ofNat (w / 256 ^ k)

section Code

variable {σ ε : Type} (copyout : ℕ → List UInt8 → Coroutine σ ε Empty Bool) (fault : Fault → ε)

/-- `sp -= n; sp -= sp % 16`. -/
def push (sp n : ℕ) : Coroutine σ ε Empty ℕ :=
  if sp < n then .fail (fault .wrap) else return sp - n - (sp - n) % 16

/-- The loop over the argument strings. The list `ustack` holds the entries written so far, of which
there are `argc`. -/
def pushStrings (stackbase : ℕ) :
    List (List UInt8) → ℕ → List ℕ → Coroutine σ ε Empty (Option (ℕ × List ℕ))
  | [], sp, ustack => return some (sp, ustack)
  | arg :: argv, sp, ustack =>
    if MAXARG ≤ ustack.length then
      return none
    else do
      let sp ← push fault sp (arg.length + 1)
      if sp < stackbase then
        return none
      else if ← copyout sp (arg ++ [0]) then
        pushStrings stackbase argv sp (ustack ++ [sp])
      else
        return none

/-- Push the arguments below `sz`; returns `argc` and `sp`, or `none` for `goto bad`. -/
def pushArgs (sz : ℕ) (argv : List (List UInt8)) : Coroutine σ ε Empty (Option (ℕ × ℕ)) := do
  let stackbase := sz - PGSIZE
  match ← pushStrings copyout fault stackbase argv sz [] with
  | none => return none
  | some (sp, ustack) =>
    let argc := ustack.length
    if MAXARG ≤ argc then
      .fail (fault .ustack)
    else
      let ustack := ustack ++ [0]
      let sp ← push fault sp ((argc + 1) * 8)
      if sp < stackbase then
        return none
      else if ← copyout sp (ustack.flatMap le64) then
        return some (argc, sp)
      else
        return none

end Code

/-! ### What the stack holds -/

/-- Memory with some bytes written at an address. -/
def overwrite (f : ℕ → UInt8) (va : ℕ) (bs : List UInt8) : ℕ → UInt8 :=
  fun a => if va ≤ a ∧ a < va + bs.length then bs.getD (a - va) 0 else f a

/-- The bytes at an address. -/
def Bytes (f : ℕ → UInt8) (va : ℕ) (bs : List UInt8) : Prop :=
  ∀ k < bs.length, f (va + k) = bs.getD k 0

variable {va : ℕ} {bs : List UInt8} {f : ℕ → UInt8}

lemma overwrite_of_not_mem {a : ℕ}
    (h : a < va ∨ va + bs.length ≤ a) : overwrite f va bs a = f a := if_neg (by omega)

lemma bytes_overwrite (f : ℕ → UInt8) (va : ℕ) (bs : List UInt8) :
    Bytes (overwrite f va bs) va bs := by
  intro k hk
  rw [overwrite, if_pos (by omega), Nat.add_sub_cancel_left]

lemma Bytes.congr {g : ℕ → UInt8} (h : Bytes f va bs)
    (hfg : ∀ a, va ≤ a → a < va + bs.length → g a = f a) : Bytes g va bs := by
  intro k hk
  rw [hfg _ (by omega) (by omega)]
  exact h k hk

/-- The `uint64` at an address. -/
def word (f : ℕ → UInt8) (va : ℕ) : ℕ := Vm.leWord 8 fun k => f (va + k)

/-- The strings that lie below each other from `top` down to `bot`, at the addresses given. -/
inductive Layout (f : ℕ → UInt8) : ℕ → List (List UInt8) → List ℕ → ℕ → Prop
  | nil (top : ℕ) : Layout f top [] [] top
  | cons {top bot a : ℕ} {arg : List UInt8} {argv : List (List UInt8)} {as : List ℕ} :
      16 ∣ a → a + (arg.length + 1) ≤ top → Bytes f a (arg ++ [0]) → Layout f a argv as bot →
      Layout f top (arg :: argv) (a :: as) bot

namespace Layout

variable {g : ℕ → UInt8} {top bot : ℕ} {argv : List (List UInt8)} {as : List ℕ}

lemma length_eq (h : Layout f top argv as bot) : as.length = argv.length := by
  induction h with
  | nil => rfl
  | cons _ _ _ _ ih => rw [List.length_cons, List.length_cons, ih]

lemma le (h : Layout f top argv as bot) : bot ≤ top := by
  induction h with
  | nil => exact le_rfl
  | cons _ hle _ _ ih => omega

lemma dvd (h : Layout f top argv as bot) (htop : 16 ∣ top) : 16 ∣ bot := by
  induction h with
  | nil => exact htop
  | cons ha _ _ _ ih => exact ih ha

/-- The layout depends on the bytes from its bottom on. -/
lemma congr (h : Layout f top argv as bot) (hfg : ∀ a, bot ≤ a → g a = f a) :
    Layout g top argv as bot := by
  induction h with
  | nil => exact .nil _
  | cons ha hle hbytes hrest ih =>
    have := hrest.le
    exact .cons ha hle (hbytes.congr fun b hb _ => hfg b (by omega)) (ih hfg)

/-- Where the `i`-th string is. -/
lemma get (h : Layout f top argv as bot) {i a : ℕ} {arg : List UInt8} (ha : as[i]? = some a)
    (harg : argv[i]? = some arg) :
    16 ∣ a ∧ bot ≤ a ∧ a + (arg.length + 1) ≤ top ∧ Bytes f a (arg ++ [0]) ∧
      ∀ j b, j < i → as[j]? = some b → a + (arg.length + 1) ≤ b := by
  induction h generalizing i with
  | nil => simp at ha
  | cons hdvd hle hbytes hrest ih =>
    cases i with
    | zero =>
      obtain rfl : _ = a := by simpa using ha
      obtain rfl : _ = arg := by simpa using harg
      exact ⟨hdvd, hrest.le, hle, hbytes, fun j b hj _ => by omega⟩
    | succ i =>
      obtain ⟨h₁, h₂, h₃, h₄, h₅⟩ := ih (by simpa using ha) (by simpa using harg)
      refine ⟨h₁, h₂, by omega, h₄, ?_⟩
      intro j b hj hb
      cases j with
      | zero =>
        obtain rfl : _ = b := by simpa using hb
        exact h₃
      | succ j => exact h₅ j b (by omega) (by simpa using hb)

end Layout

/-! ### The array of pointers -/

lemma length_flatMap_le64 (ws : List ℕ) : (ws.flatMap le64).length = ws.length * 8 := by
  induction ws with
  | nil => rfl
  | cons w ws ih =>
    rw [List.flatMap_cons, List.length_append, ih, List.length_cons, le64, List.length_map,
      List.length_range]
    omega

lemma Bytes.append {cs : List UInt8} (h : Bytes f va (bs ++ cs)) :
    Bytes f va bs ∧ Bytes f (va + bs.length) cs := by
  refine ⟨?_, ?_⟩
  · intro k hk
    rw [h k (by rw [List.length_append]; omega), List.getD_append _ _ _ _ hk]
  · intro k hk
    rw [Nat.add_assoc, h (bs.length + k) (by rw [List.length_append]; omega),
      List.getD_append_right _ _ _ _ (by omega), Nat.add_sub_cancel_left]

lemma word_of_bytes {w : ℕ} (h : Bytes f va (le64 w)) (hw : w < 2 ^ 64) : word f va = w := by
  have hbyte : ∀ k < 8, f (va + k) = UInt8.ofNat (w / 256 ^ k) := by
    intro k hk
    rw [h k (by simpa [le64] using hk), le64, List.getD_eq_getElem _ _ (by simpa using hk)]
    simp
  have hword := Vm.Page.leWord_ofNat 8 w
  rw [Nat.mod_eq_of_lt (show w < 256 ^ 8 by omega)] at hword
  rw [← hword, word]
  simp only [Vm.leWord, hbyte 0 (by norm_num), hbyte 1 (by norm_num), hbyte 2 (by norm_num),
    hbyte 3 (by norm_num), hbyte 4 (by norm_num), hbyte 5 (by norm_num), hbyte 6 (by norm_num),
    hbyte 7 (by norm_num)]

/-- The `i`-th word of the array. -/
lemma word_flatMap_le64 {i : ℕ} {ws : List ℕ} (h : Bytes f va (ws.flatMap le64))
    (hi : i < ws.length) (hlt : ws[i] < 2 ^ 64) : word f (va + 8 * i) = ws[i] := by
  induction ws generalizing va i with
  | nil => simp at hi
  | cons w ws ih =>
    obtain ⟨hw, hws⟩ := h.append
    cases i with
    | zero => exact word_of_bytes hw hlt
    | succ i =>
      have hlen : (le64 w).length = 8 := by simp [le64]
      rw [hlen] at hws
      rw [show va + 8 * (i + 1) = va + 8 + 8 * i by omega]
      exact ih hws (by simpa using hi) hlt

/-- The room that `n` bytes take on the stack. -/
def room (n : ℕ) : ℕ := (n + 15) / 16 * 16

/-- The room that the argument strings take. -/
def stringRoom (argv : List (List UInt8)) : ℕ := (argv.map fun arg => room (arg.length + 1)).sum

/-- The room that the strings and the array of pointers take. -/
def argRoom (argv : List (List UInt8)) : ℕ := stringRoom argv + room ((argv.length + 1) * 8)

@[simp]
lemma stringRoom_cons (arg : List UInt8) (argv : List (List UInt8)) :
    stringRoom (arg :: argv) = room (arg.length + 1) + stringRoom argv := by
  simp [stringRoom]

lemma dvd_argRoom (argv : List (List UInt8)) : 16 ∣ argRoom argv := by
  have hroom : ∀ n, 16 ∣ room n := fun n => Dvd.intro_left _ rfl
  have hstrings : 16 ∣ stringRoom argv := by
    induction argv with
    | nil => simp [stringRoom]
    | cons arg argv ih =>
      rw [stringRoom_cons]
      exact (hroom _).add ih
  exact hstrings.add (hroom _)

section Spec

variable {σ ε : Type} {copyout : ℕ → List UInt8 → Coroutine σ ε Empty Bool} {fault : Fault → ε}
  {F : ε → Prop} {Stack : (ℕ → UInt8) → σ → Prop} {bot top : ℕ} {s : σ}

lemma wp_push {Q : ℕ → σ → Prop} {sp n : ℕ} (hsp : 16 ∣ sp) (hn : n ≤ sp)
    (hQ : Q (sp - room n) s) : wp F (push (ε := ε) fault sp n) Q s := by
  have heq : sp - n - (sp - n) % 16 = sp - room n := by
    obtain ⟨k, rfl⟩ := hsp
    rw [room]
    omega
  rw [push, if_neg (by omega), heq]
  exact hQ

/-- The loop fails exactly when the strings do not fit above the stack base. -/
lemma wp_pushStrings
    (hcopy : ∀ {f s va bs}, Stack f s → bot ≤ va → va + bs.length ≤ top →
      wp F (copyout va bs) (fun r s' => r = true ∧ Stack (overwrite f va bs) s') s)
    {argv : List (List UInt8)} {sp : ℕ} {ustack : List ℕ} (hs : Stack f s) (hsp : 16 ∣ sp)
    (hbot : bot ≤ sp) (htop : sp ≤ top) (hpage : PGSIZE ≤ bot)
    (hargs : ustack.length + argv.length < MAXARG) (hlen : ∀ arg ∈ argv, arg.length < PGSIZE) :
    wp F (pushStrings copyout fault bot argv sp ustack) (fun r s' => ∃ f', Stack f' s' ∧
      (∀ a, sp ≤ a → f' a = f a) ∧ (r = none ↔ sp < bot + stringRoom argv) ∧
      ∀ sp' ustack', r = some (sp', ustack') → sp' + stringRoom argv = sp ∧
        ∃ as, ustack' = ustack ++ as ∧ Layout f' sp argv as sp') s := by
  induction argv generalizing f s sp ustack with
  | nil =>
    refine ⟨f, hs, fun _ _ => rfl, by simp [stringRoom]; omega, ?_⟩
    rintro sp' ustack' ⟨⟩
    exact ⟨by simp [stringRoom], [], by simp, .nil sp⟩
  | cons arg argv ih =>
    have harg := hlen arg (List.mem_cons_self ..)
    rw [List.length_cons] at hargs
    have hroom : arg.length + 1 ≤ room (arg.length + 1) := by
      rw [room]
      omega
    have hdvd : 16 ∣ sp - room (arg.length + 1) := Nat.dvd_sub hsp (Dvd.intro_left _ rfl)
    rw [pushStrings, if_neg (by omega), wp_bind]
    apply wp_push hsp (by omega)
    rw [stringRoom_cons]
    have hle : room (arg.length + 1) ≤ PGSIZE := by
      rw [room]
      simp only [PGSIZE] at harg ⊢
      omega
    generalize room (arg.length + 1) = r at hroom hdvd hle ⊢
    by_cases hfit : sp - r < bot
    · rw [if_pos hfit]
      exact ⟨f, hs, fun _ _ => rfl, by simp; omega, by rintro _ _ ⟨⟩⟩
    rw [if_neg hfit, wp_bind]
    have hsize : (arg ++ [0]).length = arg.length + 1 := by simp
    refine (hcopy hs (by omega) (by omega)).mono ?_
    rintro _ s₁ ⟨rfl, hs₁⟩
    rw [if_pos rfl]
    refine (ih hs₁ hdvd (by omega) (by omega) (by simp; omega)
      fun a ha => hlen a (List.mem_cons_of_mem _ ha)).mono ?_
    rintro res s₂ ⟨f₂, hs₂, hsame, hnone, hsome⟩
    refine ⟨f₂, hs₂, ?_, by rw [hnone]; omega, ?_⟩
    · intro a ha
      rw [hsame a (by omega), overwrite_of_not_mem (by omega)]
    · intro sp' ustack' hres
      obtain ⟨hsp', as, rfl, hlayout⟩ := hsome sp' ustack' hres
      refine ⟨by omega, (sp - r) :: as, by simp, .cons hdvd (by omega) ?_ hlayout⟩
      -- what is written later lies below
      exact (bytes_overwrite f (sp - r) (arg ++ [0])).congr fun a ha _ => hsame a ha

/-- The two copies are made within the stack page, unless the arguments do not fit. -/
lemma wp_pushArgs
    (hcopy : ∀ {f s va bs}, Stack f s → bot ≤ va → va + bs.length ≤ top →
      wp F (copyout va bs) (fun r s' => r = true ∧ Stack (overwrite f va bs) s') s)
    {argv : List (List UInt8)} (hs : Stack f s) (htop : PGSIZE ∣ top)
    (hbot : bot + PGSIZE = top) (hpage : PGSIZE ≤ bot)
    (hargs : argv.length < MAXARG) (hlen : ∀ arg ∈ argv, arg.length < PGSIZE) :
    wp F (pushArgs copyout fault top argv) (fun r s' => ∃ f', Stack f' s' ∧
      (r = none ↔ PGSIZE < argRoom argv) ∧
      ∀ argc sp, r = some (argc, sp) → argc = argv.length ∧ sp + argRoom argv = top ∧
        ∃ as bot, sp + (argc + 1) * 8 ≤ bot ∧ Layout f' top argv as bot ∧
          Bytes f' sp ((as ++ [0]).flatMap le64)) s := by
  have htop16 : 16 ∣ top := (show 16 ∣ PGSIZE by decide).trans htop
  have hbase : top - PGSIZE = bot := by omega
  rw [pushArgs, hbase, wp_bind]
  refine (wp_pushStrings hcopy hs htop16 (by omega) le_rfl hpage (by simpa using hargs)
    hlen).mono ?_
  rintro res s₁ ⟨f₁, hs₁, -, hnone, hsome⟩
  cases res with
  | none =>
    have hfull := hnone.mp rfl
    refine ⟨f₁, hs₁, ?_, by rintro _ _ ⟨⟩⟩
    rw [argRoom]
    simp
    omega
  | some r =>
    obtain ⟨sp, ustack⟩ := r
    obtain ⟨hsp, as, hustack, hlayout⟩ := hsome sp ustack rfl
    obtain rfl : ustack = as := hustack
    have hfit : ¬top < bot + stringRoom argv := fun h => by simpa using hnone.mpr h
    have hcount := hlayout.length_eq
    have hdvd : 16 ∣ sp := hlayout.dvd htop16
    dsimp only
    rw [if_neg (by omega), wp_bind, hcount]
    have hn : (argv.length + 1) * 8 ≤ room ((argv.length + 1) * 8) := by
      rw [room]
      omega
    have hroom : room ((argv.length + 1) * 8) ≤ PGSIZE := by
      rw [room]
      simp only [PGSIZE, MAXARG] at hargs ⊢
      omega
    apply wp_push hdvd (by omega)
    rw [argRoom]
    generalize room ((argv.length + 1) * 8) = n at hn hroom ⊢
    by_cases hlow : sp - n < bot
    · rw [if_pos hlow]
      exact ⟨f₁, hs₁, by simp; omega, by rintro _ _ ⟨⟩⟩
    rw [if_neg hlow, wp_bind]
    have hsize : ((ustack ++ [0]).flatMap le64).length = (argv.length + 1) * 8 := by
      rw [length_flatMap_le64, List.length_append, List.length_singleton, hcount]
    refine (hcopy hs₁ (by omega) (by omega)).mono ?_
    rintro _ s₂ ⟨rfl, hs₂⟩
    rw [if_pos rfl]
    refine ⟨_, hs₂, by simp; omega, ?_⟩
    rintro argc' sp' ⟨⟩
    refine ⟨rfl, by omega, ustack, sp, by omega, ?_, bytes_overwrite _ _ _⟩
    exact hlayout.congr fun a ha => overwrite_of_not_mem (by omega)

end Spec

/-! ### User memory -/

/-- The bytes of user memory that a process may access. -/
abbrev UserMem := ℕ → Option UInt8

abbrev UserM := Coroutine UserMem Fault Empty

/-- `copyout`, up to the first byte that is not mapped for the user. -/
def copyout : ℕ → List UInt8 → UserM Bool
  | _, [] => return true
  | va, b :: bs => do
    if (← get) va = none then
      return false
    else
      modify fun m => Function.update m va (some b)
      copyout (va + 1) bs

/-- The bytes of a memory in which everything from `bot` to `top` is mapped. -/
def StackOf (m : UserMem) (bot top : ℕ) (f : ℕ → UInt8) (m' : UserMem) : Prop :=
  ∀ a, m' a = if bot ≤ a ∧ a < top then some (f a) else m a

lemma wp_copyout {F : Fault → Prop} {m m' : UserMem} {bot top : ℕ}
    (h : StackOf m bot top f m') (hbot : bot ≤ va) (htop : va + bs.length ≤ top) : wp F
    (copyout va bs) (fun r m'' => r = true ∧ StackOf m bot top (overwrite f va bs) m'') m' := by
  induction bs generalizing va f m' with
  | nil =>
    refine ⟨rfl, ?_⟩
    intro a
    rw [overwrite_of_not_mem (by simp; omega)]
    exact h a
  | cons b bs ih =>
    rw [List.length_cons] at htop
    simp only [copyout, wp_bind, wp_get]
    rw [if_neg (by rw [h va, if_pos (by omega)]; simp)]
    have hstep : StackOf m bot top (Function.update f va b) (Function.update m' va (some b)) := by
      intro a
      rcases eq_or_ne a va with rfl | hne
      · rw [Function.update_self, Function.update_self, if_pos (by omega)]
      · rw [Function.update_of_ne hne, Function.update_of_ne hne]
        exact h a
    refine (ih hstep (by omega) (by omega)).mono ?_
    rintro r m'' ⟨rfl, hm''⟩
    refine ⟨rfl, ?_⟩
    have heq : overwrite f va (b :: bs) = overwrite (Function.update f va b) (va + 1) bs := by
      funext a
      simp only [overwrite, List.length_cons, Function.update_apply]
      rcases Nat.lt_trichotomy a va with hlt | rfl | hgt
      · rw [if_neg (by omega), if_neg (by omega), if_neg (by omega)]
      · rw [if_pos (by omega), if_neg (by omega), if_pos rfl, Nat.sub_self]
        rfl
      · obtain ⟨k, rfl⟩ : ∃ k, a = va + 1 + k := ⟨a - (va + 1), by omega⟩
        have hk : va + 1 + k - va = k + 1 := by omega
        rw [Nat.add_sub_cancel_left, hk, List.getD_cons_succ]
        apply if_congr (by omega) rfl
        rw [if_neg (by omega)]
    rwa [heq]

/-- For every vector of strings that `sys_exec` can build, the arguments are pushed without a wrap
of `sp` and without leaving `ustack`, and the copies change nothing outside the stack page. They
fail exactly when the strings and the pointer array, aligned, do not fit in the page. Otherwise
`argc` and `sp` are as `main` expects them: the words from `sp` on are the addresses of the strings
and a zero, and the strings lie below each other from the top of the page down to the words. -/
theorem pushArgs_layout {sz : ℕ} {argv : List (List UInt8)} {m : UserMem} (hsz : PGSIZE ∣ sz)
    (hlo : 2 * PGSIZE ≤ sz) (hhi : sz < 2 ^ 64) (hargs : argv.length < MAXARG)
    (hlen : ∀ arg ∈ argv, arg.length < PGSIZE)
    (hstack : ∀ a, sz - PGSIZE ≤ a → a < sz → m a ≠ none) :
    ∃ r m', (pushArgs copyout id sz argv).run m = .ok (r, m') ∧
      (∀ a, ¬(sz - PGSIZE ≤ a ∧ a < sz) → m' a = m a) ∧
      (r = none ↔ PGSIZE < argRoom argv) ∧
      ∀ argc sp, r = some (argc, sp) → argc = argv.length ∧ 16 ∣ sp ∧ sz - PGSIZE ≤ sp ∧
        ∃ (f : ℕ → UInt8) (as : List ℕ), (∀ a : ℕ, sz - PGSIZE ≤ a → a < sz → m' a = some (f a)) ∧
          as.length = argc ∧ (∀ (i : ℕ) (hi : i < as.length), word f (sp + 8 * i) = as[i]) ∧
          word f (sp + 8 * argc) = 0 ∧
          ∀ (i a : ℕ) (arg : List UInt8), as[i]? = some a → argv[i]? = some arg →
            16 ∣ a ∧ sp + 8 * (argc + 1) ≤ a ∧ a + (arg.length + 1) ≤ sz ∧
            Bytes f a (arg ++ [0]) ∧
            ∀ (j b : ℕ), j < i → as[j]? = some b → a + (arg.length + 1) ≤ b := by
  have hinit : StackOf m (sz - PGSIZE) sz (fun a => (m a).getD 0) m := by
    intro a
    split_ifs with ha
    · obtain ⟨b, hb⟩ := Option.ne_none_iff_exists'.mp (hstack a ha.1 ha.2)
      simp [hb]
    · rfl
  have hwp : wp (fun _ => False) (pushArgs copyout id sz argv) _ m :=
    wp_pushArgs wp_copyout hinit hsz (by omega) (by omega) hargs hlen
  obtain ⟨r, m', hrun, f, hf, hnone, hsome⟩ := hwp.exists_run
  refine ⟨r, m', hrun, fun a ha => (hf a).trans (if_neg ha), hnone, ?_⟩
  intro argc sp hr
  obtain ⟨rfl, hsp, as, bot, hbot, hlayout, hwords⟩ := hsome argc sp hr
  have hfit : ¬PGSIZE < argRoom argv := fun h => by simpa [hr] using hnone.mpr h
  have hcount := hlayout.length_eq
  have hdvd : 16 ∣ sp := by
    have h₁ : 16 ∣ sz := (show 16 ∣ PGSIZE by decide).trans hsz
    have h₂ : 16 ∣ argRoom argv := dvd_argRoom argv
    exact (Nat.dvd_add_left h₂).mp (hsp ▸ h₁)
  refine ⟨rfl, hdvd, by omega, f, as, fun a h₁ h₂ => (hf a).trans (if_pos ⟨h₁, h₂⟩), hcount, ?_, ?_,
    ?_⟩
  · intro i hi
    have harg : argv[i]? = some argv[i] := List.getElem?_eq_getElem (by omega)
    have hle := (hlayout.get (List.getElem?_eq_getElem hi) harg).2.2.1
    have hword := word_flatMap_le64 hwords (i := i) (by simp; omega)
    rw [List.getElem_append_left hi] at hword
    exact hword (by omega)
  · have hword := word_flatMap_le64 hwords (i := argv.length) (by simp [hcount])
    rw [List.getElem_append_right (by omega)] at hword
    simpa using hword
  · intro i a arg ha harg
    obtain ⟨h₁, h₂, h₃, h₄, h₅⟩ := hlayout.get ha harg
    exact ⟨h₁, by omega, h₃, h₄, h₅⟩

/-- Two short arguments in the stack page below `3 * PGSIZE`. -/
theorem pushArgs_layout_echo :
    argRoom [[101, 99, 104, 111], [104, 105]] = 64 ∧
      ∃ r m', (pushArgs copyout id (3 * PGSIZE) [[101, 99, 104, 111], [104, 105]]).run
        (fun _ => some 0) = .ok (r, m') ∧ r ≠ none := by
  obtain ⟨r, m', hrun, -, hnone, -⟩ := @pushArgs_layout (3 * PGSIZE)
    [[101, 99, 104, 111], [104, 105]] (fun _ => some 0) (by decide) (by decide) (by decide)
    (by decide) (by decide) (by simp)
  refine ⟨by decide, r, m', hrun, ?_⟩
  rw [Ne, hnone]
  decide

end Xv6.Exec
