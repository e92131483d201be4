import Xv6.Log.Buffer

/-!
# Commit and recovery

`write_log`, `write_head`, `install_trans`, `read_head`, `commit` and `recover_from_log` of
`kernel/log.c`, and the exact sequence of disk writes of `commit` and of `recover_from_log`.
-/

namespace Xv6.Log

open Core

/-- Where the log lies on disk: `log.start` and `log.size`. The first of its blocks is the
header. -/
structure Layout where
  start : ℕ
  size : ℕ
  size_pos : 0 < size

/-- The block lies in the log area. -/
def Layout.InLog (L : Layout) (b : ℕ) : Prop := L.start ≤ b ∧ b < L.start + L.size

instance (L : Layout) (b : ℕ) : Decidable (L.InLog b) :=
  inferInstanceAs (Decidable (_ ∧ _))

/-! ### The header block -/

/-- What `write_head` stores into the header block: `n` and the first `n` block numbers. -/
def putHeader (blk : Block) (lh : Logheader) : Block :=
  (List.range lh.n.toNat).foldl (fun blk i => blk.setWord (i + 1) (lh.block i))
    (blk.setWord 0 (lh.n % 2 ^ 32).toNat)

/-- What `read_head` leaves in the in-memory header `lh`. -/
def getHeader (blk : Block) (lh : Logheader) : Logheader where
  n := toInt32 (blk.word 0)
  block i := if i < (toInt32 (blk.word 0)).toNat then blk.word (i + 1) else lh.block i

/-- `log.lh.n = 0`. -/
def Logheader.clear (lh : Logheader) : Logheader := { lh with n := 0 }

/-! ### The functions of `log.c` -/

section

variable (recycle : ℕ → ℕ → Bool) (L : Layout)

/-- Copy modified blocks from cache to log. -/
def writeLog : LogM PUnit := do
  let m ← get
  (List.range m.lh.n.toNat).forM fun tail => do
    let _ ← bread recycle (L.start + tail + 1)
    let src ← bread recycle (m.lh.block tail)
    setData (L.start + tail + 1) src
    bwrite (L.start + tail + 1)
    brelse (m.lh.block tail)
    brelse (L.start + tail + 1)

/-- Write the in-memory log header to disk. -/
def writeHead : LogM PUnit := do
  let m ← get
  let hb ← bread recycle L.start
  setData L.start (putHeader hb m.lh)
  bwrite L.start
  brelse L.start

/-- Copy committed blocks from the log to their home location. -/
def installTrans (recovering : Bool) : LogM PUnit := do
  let m ← get
  (List.range m.lh.n.toNat).forM fun tail => do
    let lbuf ← bread recycle (L.start + tail + 1)
    let _ ← bread recycle (m.lh.block tail)
    setData (m.lh.block tail) lbuf
    bwrite (m.lh.block tail)
    if recovering = false then bunpin (m.lh.block tail)
    brelse (L.start + tail + 1)
    brelse (m.lh.block tail)

/-- Read the log header from disk into the in-memory log header. -/
def readHead : LogM PUnit := do
  let buf ← bread recycle L.start
  modify fun m => { m with lh := getHeader buf m.lh }
  brelse L.start

def commit : LogM PUnit := do
  let m ← get
  if 0 < m.lh.n then
    writeLog recycle L
    writeHead recycle L
    installTrans recycle L false
    modify fun m => { m with lh := m.lh.clear }
    writeHead recycle L

def recoverFromLog : LogM PUnit := do
  readHead recycle L
  installTrans recycle L true
  modify fun m => { m with lh := m.lh.clear }
  writeHead recycle L

end

/-! ### Header round trip -/

lemma word_foldl_setWord (f : ℕ → ℕ) (blk : Block) (n j : ℕ) (hn : n < BSIZE / 4) :
    ((List.range n).foldl (fun blk i => blk.setWord (i + 1) (f i)) blk).word j
      = if 0 < j ∧ j ≤ n then f (j - 1) % 2 ^ 32 else blk.word j := by
  induction n with
  | zero =>
    rw [if_neg (by omega)]
    rfl
  | succ n ih =>
    rw [List.range_succ, List.foldl_append, List.foldl_cons, List.foldl_nil]
    by_cases hj : j = n + 1
    · subst hj
      rw [Block.word_setWord_self _ _ hn, if_pos ⟨Nat.succ_pos _, le_rfl⟩, Nat.add_sub_cancel]
    · rw [Block.word_setWord_of_ne _ _ hj, ih (by omega)]
      have : (0 < j ∧ j ≤ n) ↔ (0 < j ∧ j ≤ n + 1) := by omega
      simp only [this]

lemma putHeader_word_zero (blk : Block) (lh : Logheader) {n : ℕ} (hn : lh.n = n)
    (hle : n ≤ LOGSIZE) : (putHeader blk lh).word 0 = n := by
  have hlt : n < BSIZE / 4 := by simp only [LOGSIZE, MAXOPBLOCKS, BSIZE] at hle ⊢; omega
  rw [putHeader, hn, Int.toNat_natCast, word_foldl_setWord _ _ _ _ hlt, if_neg (by omega),
    Block.word_setWord_self _ _ (by decide)]
  simp only [LOGSIZE, MAXOPBLOCKS] at hle
  omega

lemma putHeader_word_succ (blk : Block) (lh : Logheader) {n i : ℕ} (hn : lh.n = n)
    (hle : n ≤ LOGSIZE) (hi : i < n) : (putHeader blk lh).word (i + 1) = lh.block i % 2 ^ 32 := by
  have hlt : n < BSIZE / 4 := by simp only [LOGSIZE, MAXOPBLOCKS, BSIZE] at hle ⊢; omega
  rw [putHeader, hn, Int.toNat_natCast, word_foldl_setWord _ _ _ _ hlt, if_pos (by omega),
    Nat.add_sub_cancel]

/-! ### One block of each loop -/

variable {b : ℕ} {v : Block}

section

variable {recycle : ℕ → ℕ → Bool} {L : Layout} {dirty : ℕ → Option Block} {need : ℕ → ℕ}
  {lh : Logheader} {e : ℕ → Block}

/-! Symbolic execution: each rule consumes the first statement of a sequence. -/

variable {α : Type} {ws : List (ℕ × Block)} {Q : α → Mem → (ℕ → Block) → Prop}

lemma get_bind {f : Mem → LogM α}
    (h : ∀ m : Mem, m.lh = lh → Spec (At dirty need lh e) (f m) ws Q) :
    Spec (At dirty need lh e) (get >>= f) ws Q := by
  have hget : Spec (At dirty need lh e) (get : LogM Mem) [] fun a m d =>
      a = m ∧ At dirty need lh e m d := fun _ _ hm => ⟨rfl, rfl, hm⟩
  refine Spec.bind_silent hget fun a => ?_
  rintro m d ⟨rfl, hm⟩
  exact h a hm.2.1 a d hm

variable {f : PUnit → LogM α}

lemma modify_lh_bind {g : Logheader → Logheader} (h : Spec (At dirty need (g lh) e) (f ⟨⟩) ws Q) :
    Spec (At dirty need lh e) ((modify fun m => { m with lh := g m.lh }) >>= f) ws Q := by
  have hmod : Spec (At dirty need lh e) (modify fun m => { m with lh := g m.lh } : LogM PUnit) []
      fun _ => At dirty need (g lh) e := by
    rintro m d ⟨hinv, hlh, hd⟩
    exact ⟨rfl, hinv, congrArg g hlh, hd⟩
  exact Spec.bind_silent hmod fun _ => h

lemma bread_bind {f : Block → LogM α}
    (h : Spec (At dirty (Function.update need b (need b + 1)) lh e)
      (f ((dirty b).getD (e b))) ws Q) :
    Spec (At dirty need lh e) (bread recycle b >>= f) ws Q := by
  refine Spec.bind_silent (bread_spec b) fun v => ?_
  rintro m d ⟨rfl, hm⟩
  exact h m d hm

/-- Overwriting a held buffer and writing it out at once leaves it clean. -/
lemma store_bind (hb : 0 < need b)
    (h : Spec (At (Function.update dirty b none) need lh (Function.update e b v)) (f ⟨⟩) ws Q) :
    Spec (At dirty need lh e) (setData b v >>= fun _ => bwrite b >>= f) ((b, v) :: ws) Q := by
  refine Spec.bind_silent (setData_spec v hb) fun _ => ?_
  refine Spec.bind (bwrite_spec (Function.update_self ..)) fun _ => ?_
  rw [Function.update_idem]
  exact h

lemma brelse_bind (hb : dirty b ≠ none → 1 < need b)
    (h : Spec (At dirty (Function.update need b (need b - 1)) lh e) (f ⟨⟩) ws Q) :
    Spec (At dirty need lh e) (brelse b >>= f) ws Q :=
  Spec.bind_silent (brelse_spec hb) fun _ => h

lemma bunpin_bind (hb : dirty b ≠ none → 1 < need b)
    (h : Spec (At dirty (Function.update need b (need b - 1)) lh e) (f ⟨⟩) ws Q) :
    Spec (At dirty need lh e) (bunpin b >>= f) ws Q :=
  Spec.bind_silent (bunpin_spec hb) fun _ => h

/-- A sequence that ends by dropping a reference. -/
lemma brelse_last {need' : ℕ → ℕ} (hb : dirty b ≠ none → 1 < need b)
    (hneed : Function.update need b (need b - 1) = need') :
    Spec (At dirty need lh e) (brelse b) [] fun _ => At dirty need' lh e :=
  hneed ▸ brelse_spec hb

/-- Copying a dirty block into the log leaves the cache as it was. -/
lemma writeLog_block_spec {dst src : ℕ} (hsrc : dirty src = some v)
    (hneed : 0 < need src) (hdst : dirty dst = none) :
    Spec (At dirty need lh e) (do
        let _ ← bread recycle dst
        let data ← bread recycle src
        setData dst data
        bwrite dst
        brelse src
        brelse dst) [(dst, v)] fun _ => At dirty need lh (Function.update e dst v) := by
  have hne : src ≠ dst := by
    rintro rfl
    rw [hsrc] at hdst
    cases hdst
  have hclean : Function.update dirty dst none = dirty := by rw [← hdst, Function.update_eq_self]
  refine bread_bind (bread_bind ?_)
  rw [hsrc, Option.getD_some]
  refine store_bind ?_ ?_
  · simp [hne.symm]
  rw [hclean]
  refine brelse_bind ?_ (brelse_last ?_ ?_)
  · intro _
    simp [hne, hneed]
  · intro h
    exact absurd hdst h
  · funext x
    by_cases hx : x = dst
    · subst hx; simp
    · by_cases hx' : x = src
      · subst hx'; simp [hx]
      · simp [hx]

/-- Installing a block from the log: its home buffer becomes clean, and loses the log's pin. -/
lemma installTrans_block_spec {recovering : Bool} {log dst : ℕ}
    (hlog : dirty log = none) (hv : e log = v) (hne : log ≠ dst) :
    Spec (At dirty need lh e) (do
        let lbuf ← bread recycle log
        let _ ← bread recycle dst
        setData dst lbuf
        bwrite dst
        if recovering = false then bunpin dst
        brelse log
        brelse dst) [(dst, v)] fun _ =>
      At (Function.update dirty dst none)
        (if recovering then need else Function.update need dst (need dst - 1)) lh
        (Function.update e dst v) := by
  refine bread_bind (bread_bind ?_)
  rw [hlog, Option.getD_none, hv]
  refine store_bind ?_ ?_
  · simp
  have hdst : Function.update dirty dst none dst = none := Function.update_self ..
  have hlog' : Function.update dirty dst none log = none := by rwa [Function.update_of_ne hne]
  cases recovering with
  | true =>
    simp only [Bool.true_eq_false, if_false, if_true]
    refine brelse_bind (fun h => absurd hlog' h) (brelse_last (fun h => absurd hdst h) ?_)
    funext x
    by_cases hx : x = dst
    · subst hx; simp [hne.symm]
    · by_cases hx' : x = log
      · subst hx'; simp [hx]
      · simp [hx, hx']
  | false =>
    simp only [if_true, Bool.false_eq_true, if_false]
    refine bunpin_bind (fun h => absurd hdst h) ?_
    refine brelse_bind (fun h => absurd hlog' h) (brelse_last (fun h => absurd hdst h) ?_)
    funext x
    by_cases hx : x = dst
    · subst hx; simp [hne.symm]
    · by_cases hx' : x = log
      · subst hx'; simp [hx]
      · simp [hx]

end

/-! ### Transactions -/

/-- The in-memory header lists the home blocks of the transaction `ws`. -/
def Logged (ws : List (ℕ × Block)) (lh : Logheader) : Prop :=
  lh.n = ws.length ∧ ∀ (i : ℕ) (h : i < ws.length), lh.block i = ws[i].1

/-- The new contents of the home blocks of a transaction. -/
def contents : List (ℕ × Block) → ℕ → Option Block
  | [], _ => none
  | (k, v) :: ws, b => if b = k then some v else contents ws b

/-- The log's pin on each home block of a transaction. -/
def pins (ws : List (ℕ × Block)) (b : ℕ) : ℕ := if b ∈ ws.map Prod.fst then 1 else 0

/-- The writes of `write_log`: the contents, in order, after the header block. -/
def logWrites (L : Layout) (ws : List (ℕ × Block)) : List (ℕ × Block) :=
  ws.mapIdx fun i w => (L.start + i + 1, w.2)

variable {ws : List (ℕ × Block)}

lemma contents_eq_none_iff : contents ws b = none ↔ b ∉ ws.map Prod.fst := by
  induction ws with
  | nil => simp [contents]
  | cons w ws ih =>
    obtain ⟨k, v⟩ := w
    simp only [contents, List.map_cons, List.mem_cons, not_or]
    by_cases hb : b = k
    · simp [hb]
    · rw [if_neg hb, ih]
      simp only [hb, not_false_iff, true_and]

lemma contents_of_mem (hnd : (ws.map Prod.fst).Nodup) {w : ℕ × Block} (h : w ∈ ws) :
    contents ws w.1 = some w.2 := by
  induction ws with
  | nil => simp at h
  | cons w' ws ih =>
    obtain ⟨k, v⟩ := w'
    simp only [List.map_cons, List.nodup_cons] at hnd
    rcases List.mem_cons.mp h with rfl | h
    · simp [contents]
    · have hne : w.1 ≠ k := fun hk => hnd.1 (hk ▸ List.mem_map_of_mem h)
      rw [contents, if_neg hne]
      exact ih hnd.2 h

lemma pins_pos_of_contents (h : contents ws b ≠ none) : 0 < pins ws b := by
  rw [ne_eq, contents_eq_none_iff, not_not] at h
  simp [pins, h]

/-- Installing the first block of a transaction leaves the contents of the rest. -/
lemma update_contents_cons {k : ℕ} (h : k ∉ ws.map Prod.fst) :
    Function.update (contents ((k, v) :: ws)) k none = contents ws := by
  funext b
  by_cases hb : b = k
  · subst hb
    rw [Function.update_self, eq_comm, contents_eq_none_iff]
    exact h
  · rw [Function.update_of_ne hb, contents, if_neg hb]

lemma update_pins_cons {k : ℕ} (h : k ∉ ws.map Prod.fst) :
    Function.update (pins ((k, v) :: ws)) k (pins ((k, v) :: ws) k - 1) = pins ws := by
  funext b
  by_cases hb : b = k
  · subst hb
    simp only [pins, Function.update_self, List.map_cons, List.mem_cons, true_or, if_true,
      if_neg h]
  · simp only [pins, Function.update_of_ne hb, List.map_cons, List.mem_cons, hb, false_or]

/-- A prefix of `range n` ends where its length says. -/
lemma range_eq_append {n x : ℕ} {pre post : List ℕ} (h : List.range n = pre ++ x :: post) :
    x = pre.length ∧ x < n := by
  have hlen : pre.length < n := by
    have := congrArg List.length h
    simp at this
    omega
  have hx : (List.range n)[pre.length]? = some x := by rw [h]; simp
  rw [List.getElem?_range hlen, Option.some.injEq] at hx
  exact ⟨hx.symm, hx ▸ hlen⟩

lemma flatMap_range_getElem? {α β : Type} (f : ℕ → α → β) (l : List α) :
    (List.range l.length).flatMap (fun i => (l[i]?.map (f i)).toList) = l.mapIdx f := by
  induction l using List.reverseRecOn with
  | nil => rfl
  | append_singleton l a ih =>
    rw [List.length_append, List.length_singleton, List.range_succ, List.flatMap_append,
      List.mapIdx_append, ← ih]
    congr 1
    · apply List.flatMap_congr
      intro i hi
      rw [List.getElem?_append_left (List.mem_range.mp hi)]
    · simp

/-! ### Traces of whole functions -/

section

variable {recycle : ℕ → ℕ → Bool} {L : Layout} {dirty : ℕ → Option Block} {need : ℕ → ℕ}
  {lh : Logheader} {e : ℕ → Block}

lemma writeLog_spec (hlh : Logged ws lh) (hd : ∀ w ∈ ws, dirty w.1 = some w.2 ∧ 0 < need w.1)
    (hlog : ∀ i < ws.length, dirty (L.start + i + 1) = none) :
    Spec (At dirty need lh e) (writeLog recycle L) (logWrites L ws) fun _ =>
      At dirty need lh (replay (logWrites L ws) e) := by
  refine get_bind fun m hm => ?_
  rw [hm, hlh.1, Int.toNat_natCast, logWrites, ← flatMap_range_getElem?]
  refine Spec.forM _ _ _ (fun pre => At dirty need lh (replay (pre.flatMap fun i =>
    (ws[i]?.map fun w => (L.start + i + 1, w.2)).toList) e)) fun pre x post hl => ?_
  obtain ⟨-, hx⟩ := range_eq_append hl
  rw [List.flatMap_append, replay_append, List.flatMap_singleton, List.getElem?_eq_getElem hx,
    hlh.2 x hx]
  have hmem := hd ws[x] (List.getElem_mem hx)
  exact writeLog_block_spec hmem.1 hmem.2 (hlog x hx)

lemma writeHead_spec {hb : Block} (hd : dirty L.start = none) (he : e L.start = hb) :
    Spec (At dirty need lh e) (writeHead recycle L) [(L.start, putHeader hb lh)] fun _ =>
      At dirty need lh (Function.update e L.start (putHeader hb lh)) := by
  have hclean : Function.update dirty L.start none = dirty := by
    rw [← hd, Function.update_eq_self]
  refine get_bind fun m hm => bread_bind ?_
  rw [hm, hd, Option.getD_none, he]
  refine store_bind (by simp) ?_
  rw [hclean]
  exact brelse_last (fun h => absurd hd h) (by simp)

/-- The part of a transaction whose home buffers are still dirty and pinned by the log when the
first `i` blocks have been installed; recovery starts with a clean cache. -/
def uninstalled (recovering : Bool) (ws : List (ℕ × Block)) (i : ℕ) : List (ℕ × Block) :=
  if recovering then [] else ws.drop i

lemma installTrans_spec (recovering : Bool) (hlh : Logged ws lh) (hnd : (ws.map Prod.fst).Nodup)
    (hhome : ∀ w ∈ ws, ¬ L.InLog w.1) (hsize : ws.length < L.size)
    (hlog : ∀ (i : ℕ) (h : i < ws.length), e (L.start + i + 1) = ws[i].2) :
    Spec (At (contents (uninstalled recovering ws 0)) (pins (uninstalled recovering ws 0)) lh e)
      (installTrans recycle L recovering) ws fun _ =>
      At (contents []) (pins []) lh (replay ws e) := by
  have hws : (List.range ws.length).flatMap (fun i => (ws[i]?.map id).toList) = ws := by
    rw [flatMap_range_getElem? fun _ => id]
    exact List.ext_getElem (by simp) (by simp)
  -- the blocks installed so far are home blocks, so the log area still holds the transaction
  have hkeep : ∀ (pre : List ℕ) (i : ℕ) (hi : i < ws.length),
      replay (pre.flatMap fun i => (ws[i]?.map id).toList) e (L.start + i + 1) = ws[i].2 := by
    intro pre i hi
    rw [← hlog i hi]
    apply replay_of_notMem
    intro hmem
    simp only [List.mem_map, List.mem_flatMap, Option.mem_toList] at hmem
    obtain ⟨w, ⟨j, -, hw⟩, hwi⟩ := hmem
    have hw' : w ∈ ws := by
      rw [Option.map_id] at hw
      exact List.mem_of_getElem? hw
    apply hhome w hw'
    rw [hwi]
    exact ⟨by omega, by omega⟩
  refine get_bind fun m hm => ?_
  rw [hm, hlh.1, Int.toNat_natCast]
  have key := Spec.forM (fun tail => (do
      let lbuf ← bread recycle (L.start + tail + 1)
      let _ ← bread recycle (lh.block tail)
      setData (lh.block tail) lbuf
      bwrite (lh.block tail)
      if recovering = false then bunpin (lh.block tail)
      brelse (L.start + tail + 1)
      brelse (lh.block tail) : LogM PUnit))
    (fun i => (ws[i]?.map id).toList) (List.range ws.length)
    (fun pre => At (contents (uninstalled recovering ws pre.length))
      (pins (uninstalled recovering ws pre.length)) lh
      (replay (pre.flatMap fun i => (ws[i]?.map id).toList) e)) ?_
  · rw [hws] at key
    refine key.consequence (fun _ _ h => h) fun _ m d h => ?_
    have hend : uninstalled recovering ws ws.length = [] := by
      simp [uninstalled]
    simpa only [List.length_range, hend, hws] using h
  · intro pre x post hl
    obtain ⟨hpre, hx⟩ := range_eq_append hl
    have hmem := List.getElem_mem hx
    have hinlog : L.InLog (L.start + x + 1) := ⟨by omega, by omega⟩
    have hne : L.start + x + 1 ≠ ws[x].1 := fun h => hhome _ hmem (h ▸ hinlog)
    have hclean : contents (uninstalled recovering ws pre.length) (L.start + x + 1) = none := by
      rw [contents_eq_none_iff]
      intro h
      obtain ⟨w, hw, hwx⟩ := List.mem_map.mp h
      have hw' : w ∈ ws := by
        unfold uninstalled at hw
        split_ifs at hw
        · simp at hw
        · exact List.mem_of_mem_drop hw
      exact hhome w hw' (hwx ▸ hinlog)
    rw [List.flatMap_append, replay_append, List.flatMap_singleton, List.getElem?_eq_getElem hx,
      hlh.2 x hx, List.length_append, List.length_singleton]
    refine (installTrans_block_spec hclean (hkeep pre x hx) hne).consequence
      (fun _ _ h => h) fun _ m d h => ?_
    cases recovering with
    | true =>
      simp only [uninstalled, if_true] at h ⊢
      have : Function.update (contents []) ws[x].1 none = contents [] := by
        funext b
        by_cases hb : b = ws[x].1 <;> simp [contents, Function.update_apply]
      rwa [this] at h
    | false =>
      simp only [uninstalled, Bool.false_eq_true, if_false] at h ⊢
      have hdrop : ws.drop pre.length = (ws[x].1, ws[x].2) :: ws.drop (pre.length + 1) := by
        subst hpre
        exact List.drop_eq_getElem_cons hx
      have hnot : ws[x].1 ∉ (ws.drop (pre.length + 1)).map Prod.fst := by
        have hnd' := hnd.sublist ((List.drop_sublist pre.length ws).map Prod.fst)
        rw [hdrop, List.map_cons, List.nodup_cons] at hnd'
        exact hnd'.1
      rwa [hdrop, update_contents_cons hnot, update_pins_cons hnot] at h

/-- The disk writes of `commit`: the contents go to the log, the header commits them, the contents
go home, and the header is cleared. `hb` is the header block before. -/
def commitWrites (L : Layout) (hb : Block) (lh : Logheader) (ws : List (ℕ × Block)) :
    List (ℕ × Block) :=
  logWrites L ws ++ (L.start, putHeader hb lh) ::
    (ws ++ [(L.start, putHeader (putHeader hb lh) lh.clear)])

lemma logWrites_fst {i : ℕ} (h : i ∈ (logWrites L ws).map Prod.fst) :
    L.start < i ∧ i ≤ L.start + ws.length := by
  simp only [logWrites, List.mem_map, List.mem_mapIdx] at h
  obtain ⟨_, ⟨j, hj, rfl⟩, rfl⟩ := h
  constructor <;> simp only <;> omega

/-- After the writes of `write_log` the log area holds the contents of the transaction. -/
lemma replay_logWrites {i : ℕ} (hi : i < ws.length) :
    replay (logWrites L ws) e (L.start + i + 1) = ws[i].2 := by
  apply replay_of_mem
  · rw [logWrites, List.nodup_iff_injective_get]
    intro a b hab
    simp only [List.get_eq_getElem, List.getElem_map, List.getElem_mapIdx] at hab
    exact Fin.ext (by omega)
  · rw [logWrites, List.mem_mapIdx]
    exact ⟨i, hi, rfl⟩

lemma commit_spec (hlh : Logged ws lh) (hne : ws ≠ []) (hnd : (ws.map Prod.fst).Nodup)
    (hhome : ∀ w ∈ ws, ¬ L.InLog w.1) (hsize : ws.length < L.size) :
    Spec (At (contents ws) (pins ws) lh e) (commit recycle L) (commitWrites L (e L.start) lh ws)
      fun _ => At (contents []) (pins []) lh.clear
        (replay (commitWrites L (e L.start) lh ws) e) := by
  have hpos : 0 < ws.length := List.length_pos_iff.mpr hne
  have hclean : ∀ b, L.InLog b → contents ws b = none := by
    intro b hb
    rw [contents_eq_none_iff]
    intro h
    obtain ⟨w, hw, rfl⟩ := List.mem_map.mp h
    exact hhome w hw hb
  have hstart : L.InLog L.start := ⟨le_rfl, by have := L.size_pos; omega⟩
  -- the header block is not among the blocks the other two loops write
  have hlogStart : replay (logWrites L ws) e L.start = e L.start := by
    apply replay_of_notMem
    intro h
    have := logWrites_fst h
    omega
  have hhomeStart : ∀ d : ℕ → Block, replay ws d L.start = d L.start := by
    intro d
    apply replay_of_notMem
    intro h
    obtain ⟨w, hw, hws⟩ := List.mem_map.mp h
    exact hhome w hw (hws ▸ hstart)
  refine get_bind fun m hm => ?_
  rw [hm, hlh.1, if_pos (by omega), commitWrites]
  refine Spec.bind (writeLog_spec hlh ?_ ?_) fun _ => ?_
  · intro w hw
    have := contents_of_mem hnd hw
    exact ⟨this, pins_pos_of_contents (by simp [this])⟩
  · intro i hi
    exact hclean _ ⟨by omega, by omega⟩
  rw [replay_append, replay_cons, replay_append]
  refine Spec.bind (writeHead_spec (hclean L.start hstart) hlogStart) fun _ => ?_
  refine Spec.bind (installTrans_spec false hlh hnd hhome hsize ?_) fun _ => modify_lh_bind ?_
  · intro i hi
    rw [Function.update_of_ne (by omega)]
    exact replay_logWrites hi
  refine writeHead_spec rfl ?_
  rw [hhomeStart, Function.update_self]

/-- Recovery installs the committed transaction `ws` and clears the header. -/
lemma recoverFromLog_spec (hlh : Logged ws (getHeader (e L.start) lh))
    (hnd : (ws.map Prod.fst).Nodup) (hhome : ∀ w ∈ ws, ¬ L.InLog w.1) (hsize : ws.length < L.size)
    (hlog : ∀ (i : ℕ) (h : i < ws.length), e (L.start + i + 1) = ws[i].2) :
    Spec (At (contents []) (pins []) lh e) (recoverFromLog recycle L)
      (ws ++ [(L.start, putHeader (e L.start) (getHeader (e L.start) lh).clear)])
      fun _ => At (contents []) (pins []) (getHeader (e L.start) lh).clear
        (replay (ws ++ [(L.start, putHeader (e L.start) (getHeader (e L.start) lh).clear)]) e) := by
  have hstart : L.InLog L.start := ⟨le_rfl, by have := L.size_pos; omega⟩
  have hread : Spec (At (contents []) (pins []) lh e) (readHead recycle L) [] fun _ =>
      At (contents []) (pins []) (getHeader (e L.start) lh) e := by
    refine bread_bind (modify_lh_bind (brelse_last (fun h => absurd rfl h) ?_))
    simp
  refine Spec.bind_silent hread fun _ => ?_
  rw [replay_append]
  refine Spec.bind (installTrans_spec true hlh hnd hhome hsize hlog) fun _ => modify_lh_bind ?_
  refine writeHead_spec rfl (replay_of_notMem ?_ e)
  intro h
  obtain ⟨w, hw, hws⟩ := List.mem_map.mp h
  exact hhome w hw (hws ▸ hstart)

end

end Xv6.Log
