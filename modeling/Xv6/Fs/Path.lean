import Mathlib.Data.List.DropRight
import Xv6.Fs.DirMap

/-!
# Paths

The elements of a path, and what a path means: a walk through directories.
-/

namespace Xv6.Fs

open Core

/-! ### Path elements -/

/-- The longest parts of a path without a slash, except the empty ones, cut to `DIRSIZ` bytes. -/
def segments (path : CStr) : List CStr :=
  ((path.splitOn slash).filter (· ≠ [])).map (List.take DIRSIZ)

@[simp]
lemma segments_nil : segments [] = [] := rfl

variable {path rest : CStr}

lemma segments_slash : segments (slash :: path) = segments path := by
  rw [segments, List.splitOn, List.splitOnP_cons_eq_if_modifyHead, if_pos (beq_self_eq_true slash)]
  rfl

lemma segments_dropWhile : segments (path.dropWhile (· == slash)) = segments path := by
  induction path with
  | nil => rfl
  | cons c cs ih =>
    rw [List.dropWhile_cons]
    split
    · next hc =>
      rw [ih, eq_of_beq hc, segments_slash]
    · rfl

/-- The part in front of the first slash, if it is not empty. -/
lemma segments_append {elem : CStr} (hne : elem ≠ []) (helem : ∀ c ∈ elem, c ≠ slash)
    (hrest : ∀ c ∈ rest.head?, c = slash) :
    segments (elem ++ rest) = elem.take DIRSIZ :: segments rest := by
  have helem' : ∀ c ∈ elem, (c == slash) = false := fun c hc => beq_false_of_ne (helem c hc)
  cases rest with
  | nil =>
    rw [List.append_nil, segments, List.splitOn, List.splitOnP_eq_singleton helem',
      List.filter_cons_of_pos (by simpa using hne)]
    rfl
  | cons c cs =>
    obtain rfl : c = slash := hrest c rfl
    rw [segments_slash, segments, List.splitOn,
      List.splitOnP_append_cons_of_forall_mem helem' slash (beq_self_eq_true slash),
      List.filter_cons_of_pos (by simpa using hne)]
    rfl

/-- What is left of a path after slashes does not begin with one. -/
lemma ne_slash_of_dropWhile (path : CStr) {c : UInt8}
    (hc : c ∈ (path.dropWhile (· == slash)).head?) : c ≠ slash := by
  have hnot := List.head?_dropWhile_not (· == slash) path
  rw [Option.mem_def.mp hc] at hnot
  exact ne_of_beq_false (by simpa using hnot)

lemma segments_of_skipelem {name : CStr} (h : skipelem path = some (name, rest)) :
    segments path = name :: segments rest := by
  rw [skipelem] at h
  split at h
  · cases h
  next c cs hpath =>
  obtain ⟨rfl, rfl⟩ := Prod.mk.inj (Option.some.inj h)
  have hc : c ≠ slash := ne_slash_of_dropWhile path (by rw [hpath]; rfl)
  rw [← segments_dropWhile, hpath, segments_dropWhile]
  nth_rewrite 1 [← List.takeWhile_append_dropWhile (p := (· != slash)) (l := c :: cs)]
  apply segments_append
  · rw [List.takeWhile_cons_of_pos (by simpa using hc)]
    exact List.cons_ne_nil _ _
  · exact fun d hd => by simpa using List.mem_takeWhile_imp hd
  · intro d hd
    have hnot := List.head?_dropWhile_not (· != slash) (c :: cs)
    rw [Option.mem_def.mp hd] at hnot
    simpa using hnot

lemma skipelem_eq_none_iff : skipelem path = none ↔ segments path = [] := by
  constructor
  · intro h
    rw [skipelem] at h
    split at h
    · next hpath => rw [← segments_dropWhile, hpath, segments_nil]
    · cases h
  · intro h
    cases hskip : skipelem path with
    | none => rfl
    | some r =>
      rw [segments_of_skipelem hskip] at h
      cases h

lemma length_lt_of_skipelem {name : CStr} (h : skipelem path = some (name, rest)) :
    rest.length < path.length := by
  rw [skipelem] at h
  split at h
  · cases h
  next c cs hpath =>
  obtain ⟨-, rfl⟩ := Prod.mk.inj (Option.some.inj h)
  have hc : c ≠ slash := ne_slash_of_dropWhile path (by rw [hpath]; rfl)
  have hdrop : (c :: cs).dropWhile (· != slash) = cs.dropWhile (· != slash) :=
    List.dropWhile_cons_of_pos (by simpa using hc)
  calc (((c :: cs).dropWhile (· != slash)).dropWhile (· == slash)).length
      ≤ (cs.dropWhile (· != slash)).length := by
        rw [hdrop]
        exact (List.dropWhile_suffix _).length_le
    _ ≤ cs.length := (List.dropWhile_suffix _).length_le
    _ < (c :: cs).length := Nat.lt_succ_self _
    _ ≤ path.length := by
        rw [← hpath]
        exact (List.dropWhile_suffix _).length_le

/-- The test of `namex` for the last element: nothing is left of the path. -/
lemma eq_nil_iff_of_skipelem {name : CStr} (h : skipelem path = some (name, rest)) :
    rest = [] ↔ segments rest = [] := by
  refine ⟨fun hrest => hrest ▸ segments_nil, fun hseg => ?_⟩
  rw [skipelem] at h
  split at h
  · cases h
  next c cs hpath =>
  obtain ⟨-, rfl⟩ := Prod.mk.inj (Option.some.inj h)
  have hnone := skipelem_eq_none_iff.mpr hseg
  rw [skipelem, List.dropWhile_idempotent] at hnone
  split at hnone
  · assumption
  · cases hnone

/-- The path elements one after another, as `namex` takes them. -/
def elements (path : CStr) : List CStr :=
  match _h : skipelem path with
  | none => []
  | some (name, rest) => name :: elements rest
termination_by path.length
decreasing_by exact length_lt_of_skipelem _h

lemma elements_eq_segments (path : CStr) : elements path = segments path := by
  fun_induction elements path with
  | case1 path h => exact (skipelem_eq_none_iff.mp h).symm
  | case2 path name rest h ih => rw [ih, segments_of_skipelem h]

/-! ### Walks -/

namespace Files

variable (A : Files)

/-- The inode number to which the names lead from the inode `n`. -/
def walk : ℕ → List CStr → Option ℕ
  | n, [] => some n
  | n, name :: names =>
    if (A n).type = T_DIR then
      ((A n).slots.lookup (name.clip DIRSIZ)).bind fun m => walk m names
    else
      none

/-- The inode `m` can be reached by names from the inode `n`. -/
def Reaches (n m : ℕ) : Prop := ∃ names, A.walk n names = some m

/-- The directory in which the last of the names is to be found, and this name. -/
def walkParent (n : ℕ) (names : List CStr) : Option (ℕ × CStr) := do
  let name ← names.getLast?
  let d ← A.walk n names.dropLast
  if (A d).type = T_DIR then some (d, name) else none

variable {A} {n m d : ℕ} {name : CStr} {names names' : List CStr}

lemma walk_append : A.walk n (names ++ names') = (A.walk n names).bind (A.walk · names') := by
  induction names generalizing n with
  | nil => rfl
  | cons name names ih =>
    rw [List.cons_append, walk, walk]
    split
    · cases (A n).slots.lookup (name.clip DIRSIZ) with
      | none => rfl
      | some m => exact ih
    · rfl

/-- The parent is a directory, and the path leads to what the last name stands for in it. -/
lemma of_walkParent (h : A.walkParent n names = some (d, name)) :
    A.Reaches n d ∧ (A d).type = T_DIR ∧
      A.walk n names = (A d).slots.lookup (name.clip DIRSIZ) := by
  simp only [walkParent, Option.bind_eq_bind, Option.bind_eq_some_iff] at h
  obtain ⟨last, hlast, e, hwalk, h⟩ := h
  split at h
  · next htype =>
    obtain ⟨rfl, rfl⟩ := Prod.mk.inj (Option.some.inj h)
    refine ⟨⟨_, hwalk⟩, htype, ?_⟩
    rw [← List.dropLast_append_getLast? _ hlast, walk_append, hwalk, Option.bind_some, walk,
      if_pos htype]
    exact Option.bind_fun_some _
  · cases h

/-- What `namex` is to find: an inode, or the parent together with the last name. In the first case
the buffer for the name, which is `name` at the start, is of no use to the caller. -/
def resolve (A : Files) (parent : Bool) (n : ℕ) (name : CStr) (names : List CStr) :
    Option (ℕ × CStr) :=
  if parent then A.walkParent n names else (A.walk n names).map (·, names.getLastD name)

lemma resolve_nil {parent : Bool} :
    A.resolve parent n name [] = if parent then none else some (n, name) := by
  cases parent <;> rfl

lemma resolve_cons {parent : Bool} {buf : CStr} :
    A.resolve parent n buf (name :: names)
      = if (A n).type ≠ T_DIR then none
        else if parent ∧ names = [] then some (n, name)
        else ((A n).slots.lookup (name.clip DIRSIZ)).bind (A.resolve parent · name names) := by
  by_cases htype : (A n).type = T_DIR
  · rw [if_neg (not_not.mpr htype)]
    cases parent with
    | false =>
      simp only [resolve, walk, if_pos htype]
      cases (A n).slots.lookup (name.clip DIRSIZ) with
      | none => simp
      | some m =>
        simp only [Option.bind_some, Bool.false_eq_true, false_and, if_false, List.getLastD_cons]
    | true =>
      cases names with
      | nil => simp [resolve, walkParent, walk, htype]
      | cons name' names =>
        simp only [resolve, walkParent, walk, if_pos htype, List.dropLast_cons_cons,
          List.getLast?_cons_cons]
        cases (A n).slots.lookup (name.clip DIRSIZ) with
        | none => simp
        | some m => simp
  · rw [if_pos htype]
    cases parent with
    | false => simp [resolve, walk, htype]
    | true => cases names <;> simp [resolve, walkParent, walk, htype]

lemma Reaches.refl : A.Reaches n n := ⟨[], rfl⟩

lemma Reaches.step (htype : (A n).type = T_DIR)
    (hlookup : (A n).slots.lookup (name.clip DIRSIZ) = some m) (h : A.Reaches m d) :
    A.Reaches n d := by
  obtain ⟨names, hnames⟩ := h
  exact ⟨name :: names, by rw [walk, if_pos htype, hlookup, Option.bind_some, hnames]⟩

lemma Reaches.tail (h : A.Reaches n d) (htype : (A d).type = T_DIR)
    (hlookup : (A d).slots.lookup (name.clip DIRSIZ) = some m) : A.Reaches n m := by
  obtain ⟨names, hnames⟩ := h
  refine ⟨names ++ [name], ?_⟩
  rw [walk_append, hnames, Option.bind_some, walk, if_pos htype, hlookup, Option.bind_some, walk]

end Files

end Xv6.Fs
