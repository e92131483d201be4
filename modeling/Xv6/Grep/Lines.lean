import Xv6.Grep.Match
import Xv6.Lib.Memmove

/-!
# The lines that grep prints

`grep` of `user/grep.c` reads its input into a buffer of 1024 bytes. It prints the lines in the
buffer that match and moves the beginning of the next line to the front. When that beginning fills
the buffer, there is no room for more, and the result of the empty read is taken for the end of the
input: the lines from there on are not looked at.
-/

namespace Xv6.Grep

open Core Lib

/-! ### The program -/

/-- The memory, what the next calls of `read` give at most, and what has been written. -/
structure State where
  mem : Bytes
  input : List Text
  out : Text

/-- `read(fd, p, n)`, which gives up to `n` bytes of the next piece of the input. -/
def read (p n : ℕ) (s : State) : ℕ × State :=
  match s.input with
  | [] => (0, s)
  | c :: cs =>
    ((c.take n).length,
      { s with
        mem := s.mem.store p (c.take n)
        input := if c.length ≤ n then cs else c.drop n :: cs })

/-- `strchr(s, c)`, `none` if there is neither `c` nor a zero in the `n` bytes from `s` on. -/
def strchr (m : Bytes) (c : UInt8) : ℕ → ℕ → Option (Option ℕ)
  | 0, _ => none
  | n + 1, s =>
    if m s = 0 then some none
    else if m s = c then some (some s)
    else strchr m c n (s + 1)

/-- The string at `s`, `none` if there is no zero in the `n` bytes from `s` on. -/
def string (m : Bytes) : ℕ → ℕ → Option Text
  | 0, _ => none
  | n + 1, s =>
    if m s = 0 then some []
    else (string m n (s + 1)).map (m s :: ·)

/-- The inner loop of `grep`, from `p` on, in at most `f` rounds. The buffer ends at `last`. -/
def printLines (re : Text) (last : ℕ) : ℕ → ℕ → State → Option (ℕ × State)
  | 0, _, _ => none
  | f + 1, p, s => do
    match ← strchr s.mem 10 (last - p) p with
    | none => return (p, s)
    | some q =>
      let s := { s with mem := Function.update s.mem q 0 }
      let text ← string s.mem (last - p) p
      if reMatch re text then
        let s := { s with mem := Function.update s.mem q 10 }
        printLines re last f (q + 1) { s with out := s.out ++ s.mem.load p (q + 1 - p) }
      else
        printLines re last f (q + 1) s

/-- The outer loop of `grep`, in at most `f` rounds. -/
def grepLoop (re : Text) (buf : ℕ) : ℕ → ℕ → State → Option State
  | 0, _, _ => none
  | f + 1, m, s => do
    let (n, s) := read (buf + m) (1024 - m - 1) s
    if n > 0 then
      let m := m + n
      let s := { s with mem := Function.update s.mem (buf + m) 0 }
      let (p, s) ← printLines re (buf + 1024) 1024 buf s
      if m > 0 then
        let m := m - (p - buf)
        grepLoop re buf f m { s with mem := (User.memmove buf p (Int32.ofNat m) s.mem).2 }
      else
        grepLoop re buf f m s
    else
      return s

/-- `grep(re, fd)`, with the array `buf` at the address `buf`. Each round takes a byte of the
input. -/
def grep (re : Text) (buf : ℕ) (s : State) : Option State :=
  grepLoop re buf (s.input.flatten.length + 1) 0 s

/-! ### Lines -/

/-- The lines of a stream that end with a newline, without it. -/
def lines (stream : Text) : List Text := (stream.splitOn 10).dropLast

/-- The lines of `ls` that match, each with its newline. -/
def printed (re : Text) (ls : List Text) : Text := (ls.filter (reMatch re)).flatMap (· ++ [10])

section

variable {re t u a : Text} {m : Bytes} {p n : ℕ} {c : UInt8}

lemma lines_of_notMem (ht : 10 ∉ t) : lines t = [] := by
  have hne : ∀ c ∈ t, (c == 10) = false := fun c hc => beq_false_of_ne (ne_of_mem_of_not_mem hc ht)
  rw [lines, List.splitOn, List.splitOnP_eq_singleton hne]
  rfl

lemma lines_append (ha : 10 ∉ a) : lines (a ++ 10 :: u) = a :: lines u := by
  have hne : ∀ c ∈ a, (c == 10) = false := fun c hc => beq_false_of_ne (ne_of_mem_of_not_mem hc ha)
  rw [lines, lines, List.splitOn,
    List.splitOnP_append_cons_of_forall_mem hne 10 (beq_self_eq_true _),
    List.dropLast_cons_of_ne_nil (List.splitOnP_ne_nil _ _), List.splitOn]

lemma printed_append (ls ls' : List Text) :
    printed re (ls ++ ls') = printed re ls ++ printed re ls' := by
  rw [printed, printed, printed, List.filter_append, List.flatMap_append]

lemma printed_cons (l : Text) (ls : List Text) :
    printed re (l :: ls) = (if reMatch re l then l ++ [10] else []) ++ printed re ls := by
  unfold printed
  split_ifs with hl
  · rw [List.filter_cons_of_pos hl, List.flatMap_cons]
  · rw [List.filter_cons_of_neg hl, List.nil_append]

/-! ### Strings in the buffer -/

/-- `strchr` passes over characters other than `c`. -/
lemma strchr_append (hload : m.load p a.length = a) (hzero : 0 ∉ a) (hc : c ∉ a) :
    strchr m c (a.length + n) p = strchr m c n (p + a.length) := by
  induction a generalizing p with
  | nil => rw [List.length_nil, Nat.zero_add, Nat.add_zero]
  | cons x a ih =>
    obtain ⟨hx, hload⟩ := List.cons.inj hload
    rw [List.mem_cons, not_or] at hzero hc
    rw [List.length_cons, Nat.add_right_comm, strchr, hx, if_neg (Ne.symm hzero.1),
      if_neg (Ne.symm hc.1), ih hload hzero.2 hc.2]
    congr 1
    omega

lemma string_append (hload : m.load p a.length = a) (hzero : 0 ∉ a) :
    string m (a.length + n) p = (string m n (p + a.length)).map (a ++ ·) := by
  induction a generalizing p with
  | nil => simp
  | cons x a ih =>
    obtain ⟨hx, hload⟩ := List.cons.inj hload
    rw [List.mem_cons, not_or] at hzero
    rw [List.length_cons, Nat.add_right_comm, string, hx, if_neg (Ne.symm hzero.1),
      ih hload hzero.2, Option.map_map, show p + 1 + a.length = p + (a.length + 1) by omega]
    rfl

/-- The first character after `a` that is a zero or `c`. -/
lemma strchr_eq (hload : m.load p a.length = a) (hzero : 0 ∉ a) (hc : c ∉ a) (hn : a.length < n) :
    (m (p + a.length) = 0 → strchr m c n p = some none) ∧
    (m (p + a.length) = c → c ≠ 0 → strchr m c n p = some (some (p + a.length))) := by
  obtain ⟨k, rfl⟩ := Nat.exists_eq_add_of_lt hn
  rw [Nat.add_assoc, strchr_append hload hzero hc, strchr]
  constructor
  · intro hend
    rw [if_pos hend]
  · rintro rfl hne
    rw [if_neg hne, if_pos rfl]

lemma string_eq (hload : m.load p a.length = a) (hzero : 0 ∉ a) (hend : m (p + a.length) = 0)
    (hn : a.length < n) : string m n p = some a := by
  obtain ⟨k, rfl⟩ := Nat.exists_eq_add_of_lt hn
  rw [Nat.add_assoc, string_append hload hzero, string, if_pos hend, Option.map_some,
    List.append_nil]

end

/-! ### The loops -/

section

variable {t : Text} {s : State} {p buf : ℕ}

/-- One round of the inner loop, at a line `a`. -/
lemma printLines_succ (re : Text) (last f : ℕ) {a b : Text}
    (hload : s.mem.load p (a ++ 10 :: b).length = a ++ 10 :: b) (hzero : 0 ∉ a) (hline : 10 ∉ a)
    (hlast : p + a.length < last) :
    ∃ m : Bytes, (∀ x, p + a.length < x → m x = s.mem x) ∧
      printLines re last (f + 1) p s = printLines re last f (p + a.length + 1)
        { s with mem := m, out := s.out ++ printed re [a] } := by
  obtain ⟨ha, hrest⟩ := Bytes.load_eq_append.mp hload
  have hq : s.mem (p + a.length) = 10 := (List.cons.inj hrest).1
  have hstrchr : strchr s.mem 10 (last - p) p = some (some (p + a.length)) :=
    (strchr_eq ha hzero hline (by omega)).2 hq (by decide)
  have hcut : (Bytes.load (Function.update s.mem (p + a.length) 0) p a.length) = a := by
    rw [Bytes.load_update_of_le (.inr le_rfl), ha]
  have hstring : string (Function.update s.mem (p + a.length) 0) (last - p) p = some a :=
    string_eq hcut hzero (Function.update_self ..) (by omega)
  -- the newline is put back if the line is printed
  have hback : Function.update (Function.update s.mem (p + a.length) 0) (p + a.length) 10
      = s.mem := by
    rw [Function.update_idem, ← hq, Function.update_eq_self]
  have hwritten : s.mem.load p (p + a.length + 1 - p) = a ++ [10] := by
    rw [show p + a.length + 1 - p = a.length + 1 by omega, Bytes.load_add, ha, Bytes.load,
      Bytes.load, hq]
  rw [printLines]
  simp only [hstrchr, hstring, hback, hwritten, Option.bind_eq_bind, Option.bind_some,
    printed_cons]
  split_ifs with hmatch
  · exact ⟨s.mem, fun _ _ => rfl, by simp [printed]⟩
  · refine ⟨Function.update s.mem (p + a.length) 0, fun x hx => ?_, by simp [printed]⟩
    rw [Function.update_of_ne (by omega)]

/-- The inner loop prints the lines in the buffer, and stops at the beginning of the next line. -/
lemma printLines_eq (re : Text) (last f : ℕ) (s : State) (hzero : 0 ∉ t)
    (hload : s.mem.load p t.length = t) (hend : s.mem (p + t.length) = 0)
    (hlast : p + t.length < last) (hf : t.length < f) :
    ∃ rest m, rest <:+ t ∧ 10 ∉ rest ∧ (∀ u, lines (t ++ u) = lines t ++ lines (rest ++ u)) ∧
      Bytes.load m (p + (t.length - rest.length)) rest.length = rest ∧
      printLines re last f p s = some (p + (t.length - rest.length),
        { s with mem := m, out := s.out ++ printed re (lines t) }) := by
  induction f generalizing t p s with
  | zero => omega
  | succ f ih =>
    by_cases hline : 10 ∈ t
    · obtain ⟨a, b, rfl, ha⟩ := List.eq_append_cons_of_mem hline
      simp only [List.mem_append, List.mem_cons, not_or] at hzero
      simp only [List.length_append, List.length_cons] at hend hlast hf
      obtain ⟨m, hm, hround⟩ := printLines_succ re last f hload hzero.1 ha (by omega)
      have hb : Bytes.load m (p + a.length + 1) b.length = b := by
        exact (Bytes.load_congr fun x hx _ => hm x (by omega)).trans
          (List.cons.inj (Bytes.load_eq_append.mp hload).2).2
      have hend' : m (p + a.length + 1 + b.length) = 0 := by
        rw [hm _ (by omega), ← hend]
        congr 1
        omega
      obtain ⟨rest, m', hrest, hnone, hlines, hload', hrun⟩ :=
        ih { s with mem := m, out := s.out ++ printed re [a] } hzero.2.2 hb hend' (by omega)
          (by omega)
      have hlen := hrest.length_le
      have hp : p + a.length + 1 + (b.length - rest.length)
          = p + ((a ++ 10 :: b).length - rest.length) := by
        rw [List.length_append, List.length_cons]
        omega
      rw [hp] at hload' hrun
      refine ⟨rest, m', ?_, hnone, ?_, hload', ?_⟩
      · exact (hrest.trans (List.suffix_cons 10 b)).trans (List.suffix_append a _)
      · intro u
        rw [List.append_assoc, List.cons_append, lines_append ha, lines_append ha, hlines,
          List.cons_append]
      · rw [hround, hrun, lines_append ha, ← List.singleton_append (l := lines b), printed_append,
          List.append_assoc]
    · refine ⟨t, s.mem, List.suffix_rfl, hline, fun u => ?_, ?_, ?_⟩
      · rw [lines_of_notMem hline, List.nil_append]
      · rwa [Nat.sub_self, Nat.add_zero]
      · rw [printLines, (strchr_eq hload hzero hline (by omega)).1 hend, lines_of_notMem hline]
        simp [printed]

/-- A line that fits in the buffer with its newline. -/
def fits (l : Text) : Bool := l.length < 1023

/-- What `grep` prints of the lines of its input. -/
def grepped (re stream : Text) : Text := printed re ((lines stream).takeWhile fits)

lemma length_lt_of_mem_lines {l : Text} (hl : l ∈ lines t) : l.length < t.length := by
  induction h : t.length using Nat.strong_induction_on generalizing t with
  | _ k ih =>
    by_cases hline : 10 ∈ t
    · obtain ⟨a, b, rfl, ha⟩ := List.eq_append_cons_of_mem hline
      rw [List.length_append, List.length_cons] at h
      rw [lines_append ha, List.mem_cons] at hl
      rcases hl with rfl | hl
      · omega
      · exact (ih b.length (by omega) hl rfl).trans (by omega)
    · rw [lines_of_notMem hline] at hl
      exact absurd hl List.not_mem_nil

/-- When the beginning of a line fills the buffer, the line does not fit. -/
lemma takeWhile_fits_eq_nil (hline : 10 ∉ t) (ht : 1023 ≤ t.length) (u : Text) :
    (lines (t ++ u)).takeWhile fits = [] := by
  by_cases hu : 10 ∈ u
  · obtain ⟨a, b, rfl, ha⟩ := List.eq_append_cons_of_mem hu
    rw [← List.append_assoc, lines_append (by simp [hline, ha]), List.takeWhile_cons_of_neg]
    simp only [fits, List.length_append, decide_eq_true_eq]
    omega
  · rw [lines_of_notMem (by simp [hline, hu]), List.takeWhile_nil]

/-- A call of `read` takes some of the input, unless there is none left or none is asked for. -/
lemma read_eq (p n : ℕ) (hinput : ∀ c ∈ s.input, c ≠ []) :
    ∃ got input, read p n s = (got.length, { s with mem := s.mem.store p got, input := input }) ∧
      got ++ input.flatten = s.input.flatten ∧ (∀ c ∈ input, c ≠ []) ∧ got.length ≤ n ∧
      (got = [] → n = 0 ∨ s.input = []) := by
  obtain ⟨mem, input, out⟩ := s
  cases input with
  | nil => exact ⟨[], [], rfl, rfl, by simp, Nat.zero_le n, fun _ => .inr rfl⟩
  | cons c cs =>
    rw [List.forall_mem_cons] at hinput
    refine ⟨c.take n, if c.length ≤ n then cs else c.drop n :: cs, rfl, ?_, ?_, by simp, ?_⟩
    · split_ifs with hc
      · rw [List.take_of_length_le hc, List.flatten_cons]
      · rw [List.flatten_cons, List.flatten_cons, ← List.append_assoc, List.take_append_drop]
    · split_ifs with hc
      · exact hinput.2
      · rw [List.forall_mem_cons]
        exact ⟨by simpa using hc, hinput.2⟩
    · intro hgot
      exact .inl ((List.take_eq_nil_iff.mp hgot).resolve_right hinput.1)

/-- One round of the outer loop, after a `read` that gave the bytes `got`. -/
lemma grepLoop_succ (re : Text) (f : ℕ) {got : Text} {input : List Text}
    (hread : read (buf + t.length) (1024 - t.length - 1) s
      = (got.length, { s with mem := s.mem.store (buf + t.length) got, input := input }))
    (hpos : 0 < got.length) (hlen : (t ++ got).length ≤ 1023) (hzero : 0 ∉ t ++ got)
    (hload : s.mem.load buf t.length = t) (hbuf : buf + 1024 ≤ 2 ^ 64) :
    ∃ rest m, rest <:+ t ++ got ∧ 10 ∉ rest ∧
      (∀ u, lines (t ++ got ++ u) = lines (t ++ got) ++ lines (rest ++ u)) ∧
      Bytes.load m buf rest.length = rest ∧
      grepLoop re buf (f + 1) t.length s
        = grepLoop re buf f rest.length ⟨m, input, s.out ++ printed re (lines (t ++ got))⟩ := by
  set m₁ : Bytes :=
    Function.update (s.mem.store (buf + t.length) got) (buf + (t ++ got).length) 0 with hm₁
  have hload₁ : m₁.load buf (t ++ got).length = t ++ got := by
    rw [hm₁, Bytes.load_update_of_le (.inr le_rfl), Bytes.load_eq_append]
    refine ⟨Eq.trans (Bytes.load_congr fun x _ hx => ?_) hload, Bytes.load_store_self ..⟩
    exact Bytes.store_of_lt hx
  obtain ⟨rest, m, hrest, hnone, hlines, hload', hrun⟩ :=
    printLines_eq re (buf + 1024) 1024 ⟨m₁, input, s.out⟩ hzero hload₁ (Function.update_self ..)
      (by omega) (by omega)
  have hle := hrest.length_le
  refine ⟨rest, m.move buf (buf + ((t ++ got).length - rest.length)) rest.length, hrest, hnone,
    hlines, ?_, ?_⟩
  · rw [Bytes.load_move, hload']
  · have hkept : (t ++ got).length - (buf + ((t ++ got).length - rest.length) - buf)
        = rest.length := by
      omega
    have hmove : User.memmove buf (buf + ((t ++ got).length - rest.length))
        (Int32.ofNat rest.length) m
          = (buf, m.move buf (buf + ((t ++ got).length - rest.length)) rest.length) :=
      User.memmove_eq m (by omega) (by omega) (by omega)
    rw [grepLoop, hread]
    simp only [gt_iff_lt, hpos, if_true, ← List.length_append, ← hm₁, hrun, Option.bind_eq_bind,
      Option.bind_some, hkept, hmove]
    rw [if_pos (by rw [List.length_append]; omega)]

/-- The outer loop prints the lines up to the first one that does not fit. It goes on with the
beginning `t` of a line at the front of the buffer. -/
lemma grepLoop_eq (re : Text) {f : ℕ} (hf : s.input.flatten.length < f)
    (hinput : ∀ c ∈ s.input, c ≠ []) (hzero : 0 ∉ t ++ s.input.flatten) (hline : 10 ∉ t)
    (hload : s.mem.load buf t.length = t) (ht : t.length ≤ 1023) (hbuf : buf + 1024 ≤ 2 ^ 64) :
    ∃ s', grepLoop re buf f t.length s = some s' ∧
      s'.out = s.out ++ grepped re (t ++ s.input.flatten) := by
  induction f generalizing t s with
  | zero => omega
  | succ f ih =>
    obtain ⟨got, input, hread, hflat, hinput', hgot, hempty⟩ :=
      read_eq (buf + t.length) (1024 - t.length - 1) hinput
    rw [← hflat] at hzero hf ⊢
    rcases Nat.eq_zero_or_pos got.length with hnil | hpos
    · -- the end of the input, or a full buffer
      obtain rfl := List.eq_nil_of_length_eq_zero hnil
      refine ⟨_, by rw [grepLoop, hread]; exact if_neg (by simp), ?_⟩
      have hnone : (lines (t ++ ([] ++ input.flatten))).takeWhile fits = [] := by
        rcases hempty rfl with hfull | hnil
        · exact takeWhile_fits_eq_nil hline (by omega) _
        · rw [hflat, hnil, List.flatten_nil, List.append_nil, lines_of_notMem hline,
            List.takeWhile_nil]
      rw [grepped, hnone]
      exact (List.append_nil _).symm
    · rw [← List.append_assoc] at hzero ⊢
      have hlen : (t ++ got).length ≤ 1023 := by
        rw [List.length_append]
        omega
      have hzero' : 0 ∉ t ++ got := fun h => hzero (List.mem_append_left _ h)
      obtain ⟨rest, m, hrest, hnone, hlines, hload', hround⟩ :=
        grepLoop_succ re f hread hpos hlen hzero' hload hbuf
      have hzero'' : 0 ∉ rest ++ input.flatten := by
        rw [List.mem_append] at hzero ⊢
        exact fun h => hzero (h.imp_left fun h => hrest.subset h)
      rw [List.length_append] at hf
      obtain ⟨s', hrun, hout⟩ := ih (s := ⟨m, input, s.out ++ printed re (lines (t ++ got))⟩)
        (by dsimp only; omega) hinput' hzero'' hnone hload' (hrest.length_le.trans hlen)
      refine ⟨s', hround.trans hrun, ?_⟩
      have hfit : ∀ l ∈ lines (t ++ got), fits l = true := fun l hl => by
        simpa [fits] using (length_lt_of_mem_lines hl).trans_le hlen
      rw [hout, grepped, grepped, hlines, List.takeWhile_append_of_pos hfit, printed_append,
        List.append_assoc]

lemma grep_eq (re : Text) (mem : Bytes) (hbuf : buf + 1024 ≤ 2 ^ 64) (input : List Text)
    (hinput : ∀ c ∈ input, c ≠ []) (hzero : 0 ∉ input.flatten) :
    ∃ s, grep re buf ⟨mem, input, []⟩ = some s ∧ s.out = grepped re input.flatten :=
  grepLoop_eq re (t := []) (Nat.lt_succ_self _) hinput hzero List.not_mem_nil rfl (Nat.zero_le _)
    hbuf

lemma printed_eq_nil {re : Text} {ls : List Text} :
    printed re ls = [] ↔ ∀ l ∈ ls, reMatch re l = false := by
  simp [printed]

/-- For every pattern, every stream without zeros and every way in which `read` gives it in pieces
that are not empty: `grep` comes to its end, and what it has printed is what the lines of the stream
before the first one of 1023 bytes or more say. These are all the lines that match, exactly when no
line from there on matches. -/
theorem grep_prints_lines_iff (re : Text) (mem : Bytes) (hbuf : buf + 1024 ≤ 2 ^ 64)
    (input : List Text) (hinput : ∀ c ∈ input, c ≠ []) (hzero : 0 ∉ input.flatten) :
    ∃ s, grep re buf ⟨mem, input, []⟩ = some s ∧
      s.out = printed re ((lines input.flatten).takeWhile fits) ∧
      (s.out = printed re (lines input.flatten) ↔
        ∀ l ∈ (lines input.flatten).dropWhile fits, reMatch re l = false) := by
  obtain ⟨s, hrun, hout⟩ := grep_eq re mem hbuf input hinput hzero
  refine ⟨s, hrun, hout, ?_⟩
  have hsplit : printed re (lines input.flatten) = printed re ((lines input.flatten).takeWhile fits)
      ++ printed re ((lines input.flatten).dropWhile fits) := by
    rw [← printed_append, List.takeWhile_append_dropWhile]
  rw [hout, grepped, hsplit, List.self_eq_append_right, printed_eq_nil]

/-- The pattern `^b`, and the lines `ab`, `bc` in three pieces. -/
theorem grep_prints_lines_pieces :
    ∃ s, grep [94, 98] 4096 ⟨fun _ => 0, [[97], [98, 10, 98], [99, 10]], []⟩ = some s ∧
      s.out = printed [94, 98] [[97, 98], [98, 99]] := by
  obtain ⟨s, hrun, -, hiff⟩ := grep_prints_lines_iff [94, 98] (fun _ => 0)
    (show 4096 + 1024 ≤ 2 ^ 64 by norm_num) [[97], [98, 10, 98], [99, 10]] (by decide) (by decide)
  exact ⟨s, hrun, hiff.mpr (by decide)⟩

lemma reMatch_hat_b {text : Text} : reMatch [94, 98] text = true ↔ deref text = 98 := by
  have hone : matchhere [98] text ↔ _ := matchhere_one (by decide) (by decide) (by decide)
  rw [reMatch, if_pos (deref_cons ..), List.tail_cons, hone, matchhere_nil]
  constructor
  · rintro ⟨⟨-, h | h⟩, -⟩
    · exact absurd h (by decide)
    · exact h.symm
  · rintro h
    exact ⟨⟨by rw [h]; decide, .inr h.symm⟩, rfl⟩

/-- A line of 1023 bytes, then the line `b`. The pattern `^b` matches the second one, but nothing is
printed. -/
theorem grep_drops_lines :
    ∃ s, grep [94, 98] 4096 ⟨fun _ => 0, [List.replicate 1023 97 ++ [10, 98, 10]], []⟩ = some s ∧
      s.out = [] ∧
      printed [94, 98] (lines (List.replicate 1023 97 ++ [10, 98, 10])) = [98, 10] := by
  have hlen : 1023 ≤ (List.replicate 1023 (97 : UInt8)).length := List.length_replicate.ge
  have hmem : ∀ c ∈ List.replicate 1023 (97 : UInt8), c = 97 := fun c => List.eq_of_mem_replicate
  have hhead : deref (List.replicate 1023 97) = 97 := rfl
  generalize List.replicate 1023 (97 : UInt8) = long at hlen hmem hhead ⊢
  have hline : 10 ∉ long := fun h => absurd (hmem 10 h) (by decide)
  have hzero : 0 ∉ [long ++ [10, 98, 10]].flatten := by
    rw [List.flatten_singleton, List.mem_append, not_or]
    exact ⟨fun h => absurd (hmem 0 h) (by decide), by decide⟩
  obtain ⟨s, hrun, hout⟩ := grep_eq [94, 98] (fun _ => 0) (show 4096 + 1024 ≤ 2 ^ 64 by norm_num)
    [long ++ [10, 98, 10]] (by simp) hzero
  refine ⟨s, hrun, ?_, ?_⟩
  · rw [hout, grepped, List.flatten_singleton, takeWhile_fits_eq_nil hline hlen]
    rfl
  · have hlines : lines [98, 10] = [[98]] := rfl
    rw [lines_append hline, hlines, printed_cons, printed_cons, if_neg, if_pos]
    · rfl
    · exact reMatch_hat_b.mpr rfl
    · rw [reMatch_hat_b, hhead]
      decide

end

end Xv6.Grep
