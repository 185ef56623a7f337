import ArceOS.Posix.FdOps

/-!
# `select`

`sys_select` from `arceos_posix_api/src/imp/io_mpx/select.rs`. `FdSets::from` copies
the first `nfds_usizes = ⌈nfds / 64⌉` words of each of the three caller's sets (zeros
for a null set); `sys_select` then clears those same words of the caller's sets, and
`FdSets::poll_all` walks the copied words, skipping words that are zero in all three
sets, and within a word the bits below `nfds`, polling each descriptor asked about and
setting its bit in the caller's sets.

A `fd_set` is its array of words, each a `Nat` standing for a 64-bit word.

## Main results

- `FdSets.pollAll_eq_foldlM`: the two loops visit each descriptor below `nfds` once, in
  order, skipping none that is asked about;
- `FdSets.foldlM_step_eq`, `FdSets.foldlM_step_ebadf`: over open descriptors the visits
  mark each ready descriptor in its output set and count it; a descriptor asked about and
  not open makes the call fail with `EBADF`;
- `select_ready_sets`: the bits of the output sets in the words `select` clears are exactly
  the ready descriptors below `nfds`, the bits of later words are the caller's own, and the
  count is that of the output bits below `nfds`;
- `select_keeps_bits_past_nfds_word`: for `nfds = 1`, a bit `64` set by the caller stays
  set in the output, so the count is not that of all the output bits.
-/

namespace ArceOS.Posix.Select

open ArceOS.Posix

/-! ## §1 Descriptor sets -/

/-- `FD_SETSIZE`. -/
def FD_SETSIZE : Nat := 1024

/-- `BITS_PER_USIZE`. -/
def BITS_PER_USIZE : Nat := 64

/-- `FD_SETSIZE_USIZES`: `FD_SETSIZE.div_ceil(BITS_PER_USIZE)`. -/
def FD_SETSIZE_USIZES : Nat := 16

/-- `usize::div_ceil`. -/
def divCeil (a b : Nat) : Nat := (a + b - 1) / b

/-- `fd_set`: the words of `fds_bits`; descriptor `fd` is bit `fd % 64` of word
    `fd / 64`. -/
structure FdSet where
  fdsBits : Nat → Nat

/-- Bit `fd` of an array of words. -/
def bitOf (words : Nat → Nat) (fd : Nat) : Bool :=
  (words (fd / BITS_PER_USIZE)).testBit (fd % BITS_PER_USIZE)

/-- Whether `fd` is in a set that may be null. -/
def inSet (fds : Option FdSet) (fd : Nat) : Bool :=
  match fds with
  | none => false
  | some s => bitOf s.fdsBits fd

/-- `zero_fd_set(fds, nfds)`: the first `⌈nfds / 64⌉` words are cleared. -/
def zeroFdSet (fds : Option FdSet) (nfds : Nat) : Option FdSet :=
  fds.map fun s => ⟨fun w => if w < divCeil nfds BITS_PER_USIZE then 0 else s.fdsBits w⟩

/-- `set_fd_set(fds, fd)`. -/
def setFdSet (fds : Option FdSet) (fd : Nat) : Option FdSet :=
  fds.map fun s => ⟨Function.update s.fdsBits (fd / BITS_PER_USIZE)
    (s.fdsBits (fd / BITS_PER_USIZE) ||| 1 <<< (fd % BITS_PER_USIZE))⟩

/-- `FdSets`: `nfds` and the three sections of `bits`, which start at the words `0`,
    `FD_SETSIZE_USIZES` and `2 * FD_SETSIZE_USIZES`. -/
structure FdSets where
  nfds : Nat
  readBits : Nat → Nat
  writeBits : Nat → Nat
  exceptBits : Nat → Nat

/-- `copy_from_fd_set`: word `w` of the copy of `fds`, for the first `nfdsUsizes` words,
    zeros for a null set. The words after them stay uninitialised and are never read;
    they are `0` here. -/
def copyFromFdSet (nfdsUsizes : Nat) (fds : Option FdSet) (w : Nat) : Nat :=
  if w < nfdsUsizes then
    match fds with
    | none => 0
    | some s => s.fdsBits w
  else 0

/-- `FdSets::from`. -/
def FdSets.from (nfds : Nat) (readFds writeFds exceptFds : Option FdSet) : FdSets :=
  let nfds := min nfds FD_SETSIZE
  let nfdsUsizes := divCeil nfds BITS_PER_USIZE
  ⟨nfds, copyFromFdSet nfdsUsizes readFds, copyFromFdSet nfdsUsizes writeFds,
    copyFromFdSet nfdsUsizes exceptFds⟩

/-- What `poll_all` writes: the caller's three sets and `res_num`. -/
structure SelectOut where
  readFds : Option FdSet
  writeFds : Option FdSet
  exceptFds : Option FdSet
  resNum : Nat

namespace SelectOut

/-- `set_fd_set(res_read_fds, fd); res_num += 1`. -/
def addRead (o : SelectOut) (fd : Nat) : SelectOut :=
  { o with readFds := setFdSet o.readFds fd, resNum := o.resNum + 1 }

/-- `set_fd_set(res_write_fds, fd); res_num += 1`. -/
def addWrite (o : SelectOut) (fd : Nat) : SelectOut :=
  { o with writeFds := setFdSet o.writeFds fd, resNum := o.resNum + 1 }

/-- `set_fd_set(res_except_fds, fd); res_num += 1`. -/
def addExcept (o : SelectOut) (fd : Nat) : SelectOut :=
  { o with exceptFds := setFdSet o.exceptFds fd, resNum := o.resNum + 1 }

end SelectOut

/-! ## §2 `poll_all` and `sys_select` -/

/-- The inner loop's body for bit `j` of word `w`, `i` being the word's first
    descriptor. -/
def pollBit (s : FdSets) (t : FdTable) (w i j : Nat) (o : SelectOut) :
    Except LinuxError SelectOut :=
  let bit := 1 <<< j
  let fd := i + j
  match t.getFileLike fd with
  | .error e => .error e
  | .ok (.ok state) =>
    let o := if state.readable && (s.readBits w &&& bit != 0) then o.addRead fd else o
    .ok (if state.writable && (s.writeBits w &&& bit != 0) then o.addWrite fd else o)
  | .ok (.error _) =>
    .ok (if s.exceptBits w &&& bit != 0 then o.addExcept fd else o)

/-- The inner loop over the bits `j, j + 1, ...` of word `w`, while `j < BITS_PER_USIZE`
    and `i + j < nfds`, skipping the bits that are `0` in all three words. -/
def pollBits (s : FdSets) (t : FdTable) (w i : Nat) :
    Nat → Nat → SelectOut → Except LinuxError SelectOut
  | 0, _, o => .ok o
  | fuel + 1, j, o =>
    if j < BITS_PER_USIZE ∧ i + j < s.nfds then
      let allBits := s.readBits w ||| s.writeBits w ||| s.exceptBits w
      if allBits &&& 1 <<< j = 0 then pollBits s t w i fuel (j + 1) o
      else
        match pollBit s t w i j o with
        | .error e => .error e
        | .ok o => pollBits s t w i fuel (j + 1) o
    else .ok o

/-- The outer loop over the words `w, w + 1, ...`, whose first descriptors are
    `i, i + 64, ...`, while `i < nfds`, skipping the words that are `0` in all three
    sets. -/
def pollWords (s : FdSets) (t : FdTable) :
    Nat → Nat → Nat → SelectOut → Except LinuxError SelectOut
  | 0, _, _, o => .ok o
  | fuel + 1, i, w, o =>
    if i < s.nfds then
      let allBits := s.readBits w ||| s.writeBits w ||| s.exceptBits w
      if allBits = 0 then pollWords s t fuel (i + BITS_PER_USIZE) (w + 1) o
      else
        match pollBits s t w i BITS_PER_USIZE 0 o with
        | .error e => .error e
        | .ok o => pollWords s t fuel (i + BITS_PER_USIZE) (w + 1) o
    else .ok o

/-- `FdSets::poll_all`: `nfds ≤ FD_SETSIZE`, so the outer loop ends within
    `FD_SETSIZE_USIZES` words. -/
def FdSets.pollAll (s : FdSets) (t : FdTable) (o : SelectOut) : Except LinuxError SelectOut :=
  pollWords s t FD_SETSIZE_USIZES 0 0 o

/-- One pass of `sys_select`'s loop, `expired` telling whether the deadline has passed:
    the count returned (`none` when the call yields and polls again), and the caller's
    sets. -/
def sysSelect (nfds : Int) (readFds writeFds exceptFds : Option FdSet) (t : FdTable)
    (expired : Bool) : LinuxResult (Option Nat × SelectOut) := do
  if nfds < 0 then throw .EINVAL
  let nfds := min nfds.toNat FD_SETSIZE
  let fdSets := FdSets.from nfds readFds writeFds exceptFds
  let o ← fdSets.pollAll t
    ⟨zeroFdSet readFds nfds, zeroFdSet writeFds nfds, zeroFdSet exceptFds nfds, 0⟩
  if o.resNum > 0 then return (some o.resNum, o)
  if expired then return (some 0, o)
  return (none, o)

/-! ## §3 Bits -/

theorem and_one_shiftLeft_eq_zero_iff (x j : Nat) : x &&& 1 <<< j = 0 ↔ x.testBit j = false := by
  rw [Nat.one_shiftLeft, Nat.and_two_pow]
  cases x.testBit j <;> simp

theorem and_one_shiftLeft_bne_zero (x j : Nat) : (x &&& 1 <<< j != 0) = x.testBit j := by
  cases h : x.testBit j
  · simpa using (and_one_shiftLeft_eq_zero_iff x j).mpr h
  · simpa [h] using (and_one_shiftLeft_eq_zero_iff x j).not

/-- Descriptor `64 w + j` is bit `j` of word `w`. -/
theorem bitOf_word (f : Nat → Nat) {w j : Nat} (hj : j < BITS_PER_USIZE) :
    bitOf f (BITS_PER_USIZE * w + j) = (f w).testBit j := by
  have hdiv : (BITS_PER_USIZE * w + j) / BITS_PER_USIZE = w := by
    unfold BITS_PER_USIZE at *
    omega
  have hmod : (BITS_PER_USIZE * w + j) % BITS_PER_USIZE = j := by
    unfold BITS_PER_USIZE at *
    omega
  rw [bitOf, hdiv, hmod]

theorem inSet_setFdSet (fds : Option FdSet) (fd fd' : Nat) :
    inSet (setFdSet fds fd) fd' = (inSet fds fd' || (fds.isSome && decide (fd' = fd))) := by
  cases fds with
  | none => rfl
  | some s =>
    simp only [setFdSet, Option.map_some, inSet, bitOf, Option.isSome_some, Bool.true_and]
    by_cases hw : fd' / BITS_PER_USIZE = fd / BITS_PER_USIZE
    · -- the same word: its bit `fd % 64` is the one set
      have hiff : fd % BITS_PER_USIZE = fd' % BITS_PER_USIZE ↔ fd' = fd := by
        constructor
        · intro hm
          rw [← Nat.div_add_mod fd BITS_PER_USIZE, ← Nat.div_add_mod fd' BITS_PER_USIZE, hw, hm]
        · rintro rfl
          rfl
      rw [hw, Function.update_self, Nat.testBit_or, Nat.one_shiftLeft, Nat.testBit_two_pow,
        decide_eq_decide.mpr hiff]
    · have hne : fd' ≠ fd := fun h => hw (by rw [h])
      rw [Function.update_of_ne hw]
      simp [hne]

theorem inSet_zeroFdSet (fds : Option FdSet) (nfds fd : Nat) :
    inSet (zeroFdSet fds nfds) fd =
      (decide (divCeil nfds BITS_PER_USIZE ≤ fd / BITS_PER_USIZE) && inSet fds fd) := by
  cases fds with
  | none => simp [zeroFdSet, inSet]
  | some s =>
    simp only [zeroFdSet, Option.map_some, inSet, bitOf]
    split_ifs with h
    · simp [Nat.not_le.mpr h]
    · simp [Nat.le_of_not_lt h]

@[simp] theorem isSome_zeroFdSet (fds : Option FdSet) (nfds : Nat) :
    (zeroFdSet fds nfds).isSome = fds.isSome := by
  cases fds <;> rfl

theorem bitOf_copyFromFdSet (n : Nat) (fds : Option FdSet) (fd : Nat) :
    bitOf (copyFromFdSet n fds) fd = (decide (fd / BITS_PER_USIZE < n) && inSet fds fd) := by
  unfold bitOf copyFromFdSet
  split_ifs with h
  · cases fds <;> simp [h, inSet, bitOf]
  · simp [h]

@[simp] theorem isSome_setFdSet (fds : Option FdSet) (fd : Nat) :
    (setFdSet fds fd).isSome = fds.isSome := by
  cases fds <;> rfl

/-! ## §4 What one descriptor contributes -/

/-- Whether `fd` polls readable. -/
def readReady (t : FdTable) (fd : Nat) : Bool :=
  match t.poll fd with
  | some (.ok st) => st.readable
  | _ => false

/-- Whether `fd` polls writable. -/
def writeReady (t : FdTable) (fd : Nat) : Bool :=
  match t.poll fd with
  | some (.ok st) => st.writable
  | _ => false

/-- Whether polling `fd` fails: the except condition of `poll_all`. -/
def pollError (t : FdTable) (fd : Nat) : Bool :=
  match t.poll fd with
  | some (.error _) => true
  | _ => false

namespace FdSets

variable (s : FdSets) (t : FdTable)

/-- Whether `fd` is in any of the three copied sets. -/
def asked (fd : Nat) : Bool :=
  bitOf s.readBits fd || bitOf s.writeBits fd || bitOf s.exceptBits fd

/-- The visit of descriptor `fd` by the two loops of `poll_all`, by its word and bit. -/
def step (o : SelectOut) (fd : Nat) : Except LinuxError SelectOut :=
  if s.asked fd then
    pollBit s t (fd / BITS_PER_USIZE) (BITS_PER_USIZE * (fd / BITS_PER_USIZE))
      (fd % BITS_PER_USIZE) o
  else .ok o

/-- `fd` is asked about for reading and polls readable. -/
def readHit (fd : Nat) : Bool := bitOf s.readBits fd && readReady t fd

/-- `fd` is asked about for writing and polls writable. -/
def writeHit (fd : Nat) : Bool := bitOf s.writeBits fd && writeReady t fd

/-- `fd` is asked about for exceptions and its poll fails. -/
def exceptHit (fd : Nat) : Bool := bitOf s.exceptBits fd && pollError t fd

/-- What the visit of an open descriptor, or of one not asked about, does. -/
def mark (o : SelectOut) (fd : Nat) : SelectOut :=
  let o := if s.readHit t fd then o.addRead fd else o
  let o := if s.writeHit t fd then o.addWrite fd else o
  if s.exceptHit t fd then o.addExcept fd else o

@[simp] theorem mark_readFds (o : SelectOut) (fd : Nat) :
    (s.mark t o fd).readFds = if s.readHit t fd then setFdSet o.readFds fd else o.readFds := by
  unfold mark
  split_ifs <;> rfl

@[simp] theorem mark_writeFds (o : SelectOut) (fd : Nat) :
    (s.mark t o fd).writeFds = if s.writeHit t fd then setFdSet o.writeFds fd else o.writeFds := by
  unfold mark
  split_ifs <;> rfl

@[simp] theorem mark_exceptFds (o : SelectOut) (fd : Nat) :
    (s.mark t o fd).exceptFds =
      if s.exceptHit t fd then setFdSet o.exceptFds fd else o.exceptFds := by
  unfold mark
  split_ifs <;> rfl

theorem mark_resNum (o : SelectOut) (fd : Nat) :
    (s.mark t o fd).resNum = o.resNum + (if s.readHit t fd then 1 else 0) +
      (if s.writeHit t fd then 1 else 0) + (if s.exceptHit t fd then 1 else 0) := by
  unfold mark
  split_ifs <;> simp [SelectOut.addRead, SelectOut.addWrite, SelectOut.addExcept]

/-- Visiting a descriptor that is open or not asked about succeeds with `mark`. -/
theorem step_eq (o : SelectOut) {fd : Nat} (hopen : s.asked fd = true → (t.poll fd).isSome) :
    s.step t o fd = .ok (s.mark t o fd) := by
  have hfd := Nat.div_add_mod fd BITS_PER_USIZE
  unfold step
  split_ifs with ha
  · obtain ⟨r, hr⟩ := Option.isSome_iff_exists.mp (hopen ha)
    simp only [pollBit, hfd, FdTable.getFileLike_of_some hr, and_one_shiftLeft_bne_zero]
    -- the poll either reports a state or fails, and `mark` reads the same
    cases r with
    | ok st =>
      simp [mark, readHit, writeHit, exceptHit, readReady, writeReady, pollError, hr, bitOf,
        Bool.and_comm]
    | error e =>
      simp [mark, readHit, writeHit, exceptHit, readReady, writeReady, pollError, hr, bitOf]
  · simp only [asked, Bool.or_eq_true, not_or, Bool.not_eq_true] at ha
    obtain ⟨⟨hr, hw⟩, he⟩ := ha
    simp [mark, readHit, writeHit, exceptHit, hr, hw, he]

/-- Visiting a descriptor that is asked about and not open fails with `EBADF`. -/
theorem step_of_not_open (o : SelectOut) {fd : Nat} (ha : s.asked fd = true)
    (hnone : t.poll fd = none) : s.step t o fd = .error .EBADF := by
  have hfd := Nat.div_add_mod fd BITS_PER_USIZE
  simp [step, ha, pollBit, hfd, FdTable.getFileLike_of_none hnone]

theorem foldlM_step_eq (l : List Nat) (o : SelectOut)
    (hopen : ∀ fd ∈ l, s.asked fd = true → (t.poll fd).isSome) :
    l.foldlM (s.step t) o = .ok (l.foldl (s.mark t) o) := by
  induction l generalizing o with
  | nil => rfl
  | cons fd l ih =>
    rw [List.foldlM_cons, List.foldl_cons, s.step_eq t o (hopen fd List.mem_cons_self)]
    exact ih _ fun fd' h => hopen fd' (List.mem_cons_of_mem _ h)

theorem foldlM_step_ebadf (l : List Nat) (o : SelectOut)
    (hbad : ∃ fd ∈ l, s.asked fd = true ∧ t.poll fd = none) :
    l.foldlM (s.step t) o = .error .EBADF := by
  induction l generalizing o with
  | nil => simp at hbad
  | cons fd l ih =>
    rw [List.foldlM_cons]
    by_cases hfd : s.asked fd = true ∧ t.poll fd = none
    · rw [s.step_of_not_open t o hfd.1 hfd.2]
      rfl
    · -- the bad descriptor lies further on
      have hopen : s.asked fd = true → (t.poll fd).isSome := fun ha =>
        Option.isSome_iff_ne_none.mpr fun hn => hfd ⟨ha, hn⟩
      obtain ⟨fd', hmem, hbad'⟩ := hbad
      have hfd' : fd' ∈ l := by
        rcases List.mem_cons.mp hmem with rfl | h
        · exact absurd hbad' hfd
        · exact h
      rw [s.step_eq t o hopen]
      exact ih _ ⟨fd', hfd', hbad'⟩

end FdSets

/-- How one output set evolves along the visits: `field` picks it out, and a visit of `fd`
    sets bit `fd` of it exactly when `hit fd`. -/
theorem inSet_foldl_of_field (field : SelectOut → Option FdSet) (hit : Nat → Bool)
    (f : SelectOut → Nat → SelectOut)
    (hf : ∀ o fd, field (f o fd) = if hit fd then setFdSet (field o) fd else field o)
    (l : List Nat) (o : SelectOut) (fd : Nat) :
    inSet (field (l.foldl f o)) fd =
      (inSet (field o) fd || ((field o).isSome && decide (fd ∈ l) && hit fd)) := by
  induction l generalizing o with
  | nil => simp
  | cons fd' l ih =>
    rw [List.foldl_cons, ih, hf]
    by_cases hh : hit fd' = true
    · by_cases he : fd = fd'
      · subst he
        simp only [hh, if_true, inSet_setFdSet, isSome_setFdSet, decide_true, Bool.and_true,
          List.mem_cons, true_or]
        -- a visit that sets the bit again changes nothing
        cases (field o).isSome <;> simp
      · simp [hh, inSet_setFdSet, he]
    · have hhf : hit fd' = false := by simpa using hh
      by_cases he : fd = fd'
      · subst he
        simp [hhf]
      · simp [hhf, he]

theorem FdSets.resNum_foldl_mark (s : FdSets) (t : FdTable) (l : List Nat) (o : SelectOut) :
    (l.foldl (s.mark t) o).resNum =
      o.resNum + l.countP (s.readHit t) + l.countP (s.writeHit t) + l.countP (s.exceptHit t) := by
  induction l generalizing o with
  | nil => simp
  | cons fd l ih =>
    rw [List.foldl_cons, ih, s.mark_resNum, List.countP_cons, List.countP_cons, List.countP_cons]
    omega

/-! ## §5 The two loops visit the descriptors below `nfds` in order -/

/-- The three words of `w`, or-ed: the `all_bits` of both loops. -/
def FdSets.allBits (s : FdSets) (w : Nat) : Nat :=
  s.readBits w ||| s.writeBits w ||| s.exceptBits w

/-- Visiting descriptor `64 w + j` is the inner loop's body at bit `j` of word `w`, skipped
    when the bit is `0` in all three words. -/
theorem FdSets.step_word (s : FdSets) (t : FdTable) (o : SelectOut) {w j : Nat}
    (hj : j < BITS_PER_USIZE) :
    s.step t o (BITS_PER_USIZE * w + j) =
      if s.allBits w &&& 1 <<< j = 0 then .ok o
      else pollBit s t w (BITS_PER_USIZE * w) j o := by
  have hdiv : (BITS_PER_USIZE * w + j) / BITS_PER_USIZE = w := by
    unfold BITS_PER_USIZE at *
    omega
  have hmod : (BITS_PER_USIZE * w + j) % BITS_PER_USIZE = j := by
    unfold BITS_PER_USIZE at *
    omega
  have hasked : s.asked (BITS_PER_USIZE * w + j) = (s.allBits w).testBit j := by
    simp only [asked, allBits, bitOf_word _ hj, Nat.testBit_or]
  unfold step
  rw [hasked, hdiv, hmod]
  by_cases hz : s.allBits w &&& 1 <<< j = 0
  · rw [if_pos hz, if_neg (by simp [(and_one_shiftLeft_eq_zero_iff _ _).mp hz])]
  · rw [if_neg hz, if_pos]
    simpa [and_one_shiftLeft_eq_zero_iff] using hz

theorem pollBits_of_allBits_zero (s : FdSets) (t : FdTable) (w i fuel j : Nat) (o : SelectOut)
    (hz : s.allBits w = 0) : pollBits s t w i fuel j o = .ok o := by
  fun_induction pollBits s t w i fuel j o with
  | case1 => rfl
  | case2 => assumption
  -- a word that is `0` in all three sets has no bit to poll
  | case3 _ j _ _ allBits hnz =>
    exact absurd (by rw [show allBits = s.allBits w from rfl, hz, Nat.zero_and]) hnz
  | case4 _ j _ _ allBits hnz =>
    exact absurd (by rw [show allBits = s.allBits w from rfl, hz, Nat.zero_and]) hnz
  | case5 => rfl

/-- The bits `j, j + 1, ...` of the word starting at descriptor `i` that lie below `n`:
    the first is `i + j`. -/
theorem range'_bits {i j n : Nat} (hj : j < BITS_PER_USIZE) (hlt : i + j < n) :
    List.range' (i + j) (min (BITS_PER_USIZE - j) (n - (i + j))) =
      (i + j) :: List.range' (i + (j + 1)) (min (BITS_PER_USIZE - (j + 1)) (n - (i + (j + 1)))) := by
  have hlen : min (BITS_PER_USIZE - j) (n - (i + j)) =
      min (BITS_PER_USIZE - (j + 1)) (n - (i + (j + 1))) + 1 := by
    omega
  rw [hlen, List.range'_succ, Nat.add_assoc]

/-- The inner loop, from bit `j` of word `w` with fuel for the bits left, visits the
    descriptors `64 w + j, ...` below `64 (w + 1)` and below `nfds`. -/
theorem pollBits_eq (s : FdSets) (t : FdTable) {w i : Nat} (hi : i = BITS_PER_USIZE * w)
    (fuel j : Nat) (o : SelectOut) (hfuel : BITS_PER_USIZE ≤ j + fuel) :
    pollBits s t w i fuel j o =
      (List.range' (i + j) (min (BITS_PER_USIZE - j) (s.nfds - (i + j)))).foldlM (s.step t) o := by
  subst hi
  fun_induction pollBits s t w (BITS_PER_USIZE * w) fuel j o with
  | case1 j o =>
    -- out of fuel only past the last bit
    have hlen : min (BITS_PER_USIZE - j) (s.nfds - (BITS_PER_USIZE * w + j)) = 0 := by
      omega
    rw [hlen]
    rfl
  | case2 fuel j o hcond allBits hz ih =>
    rw [range'_bits hcond.1 hcond.2, List.foldlM_cons, s.step_word t o hcond.1,
      if_pos (show s.allBits w &&& 1 <<< j = 0 from hz)]
    exact ih (by omega)
  | case3 fuel j o hcond allBits hz e hpoll =>
    rw [range'_bits hcond.1 hcond.2, List.foldlM_cons, s.step_word t o hcond.1,
      if_neg (show ¬s.allBits w &&& 1 <<< j = 0 from hz), hpoll]
    rfl
  | case4 fuel j o hcond allBits hz o' hpoll ih =>
    rw [range'_bits hcond.1 hcond.2, List.foldlM_cons, s.step_word t o hcond.1,
      if_neg (show ¬s.allBits w &&& 1 <<< j = 0 from hz), hpoll]
    exact ih (by omega)
  | case5 fuel j o hcond =>
    have hlen : min (BITS_PER_USIZE - j) (s.nfds - (BITS_PER_USIZE * w + j)) = 0 := by
      omega
    rw [hlen]
    rfl

/-- The descriptors from word `w` on, below `n`: those of word `w`, then those from word
    `w + 1` on. -/
theorem range'_words (n w : Nat) :
    List.range' (BITS_PER_USIZE * w) (n - BITS_PER_USIZE * w) =
      List.range' (BITS_PER_USIZE * w + 0) (min (BITS_PER_USIZE - 0) (n - (BITS_PER_USIZE * w + 0))) ++
        List.range' (BITS_PER_USIZE * (w + 1)) (n - BITS_PER_USIZE * (w + 1)) := by
  simp only [Nat.add_zero, Nat.sub_zero]
  by_cases hfull : BITS_PER_USIZE ≤ n - BITS_PER_USIZE * w
  · -- a whole word below `n`: the next one starts right after it
    have hnext : BITS_PER_USIZE * (w + 1) = BITS_PER_USIZE * w + 1 * BITS_PER_USIZE := by
      rw [Nat.mul_succ, Nat.one_mul]
    rw [Nat.min_eq_left hfull, hnext, List.range'_append]
    congr 1
    omega
  · -- the last word: nothing lies past it
    have hrest : n - BITS_PER_USIZE * (w + 1) = 0 := by
      rw [Nat.mul_succ]
      omega
    rw [Nat.min_eq_right (by omega), hrest, List.range'_zero, List.append_nil]

/-- The visits from word `w` on are the inner loop over word `w`, then the visits from word
    `w + 1` on. -/
theorem foldlM_from_word (s : FdSets) (t : FdTable) (w : Nat) (o : SelectOut) :
    (List.range' (BITS_PER_USIZE * w) (s.nfds - BITS_PER_USIZE * w)).foldlM (s.step t) o =
      pollBits s t w (BITS_PER_USIZE * w) BITS_PER_USIZE 0 o >>= fun o' =>
        (List.range' (BITS_PER_USIZE * (w + 1)) (s.nfds - BITS_PER_USIZE * (w + 1))).foldlM
          (s.step t) o' := by
  rw [range'_words s.nfds w, List.foldlM_append,
    ← pollBits_eq s t rfl BITS_PER_USIZE 0 o (Nat.le_add_left _ _)]

/-- Word `w + 1` starts a word after word `w`. -/
theorem word_start_succ (w : Nat) :
    BITS_PER_USIZE * w + BITS_PER_USIZE = BITS_PER_USIZE * (w + 1) :=
  (Nat.mul_succ _ _).symm

/-- Fuel for the words from `w` on is fuel for those from `w + 1` on, one less. -/
theorem nfds_le_next_word {n w fuel : Nat} (h : n ≤ BITS_PER_USIZE * (w + (fuel + 1))) :
    n ≤ BITS_PER_USIZE * (w + 1 + fuel) := by
  rwa [Nat.add_right_comm, Nat.add_assoc]

/-- The outer loop, from word `w` with fuel for the words left, visits the descriptors from
    `64 w` to `nfds`. -/
theorem pollWords_eq (s : FdSets) (t : FdTable) (fuel : Nat) {i w : Nat}
    (hi : i = BITS_PER_USIZE * w) (o : SelectOut)
    (hfuel : s.nfds ≤ BITS_PER_USIZE * (w + fuel)) :
    pollWords s t fuel i w o =
      (List.range' i (s.nfds - i)).foldlM (s.step t) o := by
  fun_induction pollWords s t fuel i w o with
  | case1 i w o =>
    -- out of fuel only past `nfds`
    have hlen : s.nfds - i = 0 := by
      rw [Nat.add_zero] at hfuel
      omega
    rw [hlen]
    rfl
  | case2 fuel i w o hlt allBits hz ih =>
    -- a word that is `0` in all three sets is skipped, as visiting it changes nothing
    subst hi
    rw [ih (word_start_succ w) (nfds_le_next_word hfuel), word_start_succ, foldlM_from_word s t w,
      pollBits_of_allBits_zero s t w _ _ _ o hz]
    rfl
  | case3 fuel i w o hlt allBits hz e hpoll =>
    subst hi
    rw [foldlM_from_word s t w, hpoll]
    rfl
  | case4 fuel i w o hlt allBits hz o' hpoll ih =>
    subst hi
    rw [ih (word_start_succ w) (nfds_le_next_word hfuel), word_start_succ, foldlM_from_word s t w,
      hpoll]
    rfl
  | case5 fuel i w o hge =>
    have hlen : s.nfds - i = 0 := by omega
    rw [hlen]
    rfl

/-- `poll_all` visits each descriptor below `nfds` once, in order. -/
theorem FdSets.pollAll_eq_foldlM (s : FdSets) (t : FdTable) (o : SelectOut)
    (hn : s.nfds ≤ FD_SETSIZE) :
    s.pollAll t o = (List.range s.nfds).foldlM (s.step t) o := by
  have hfuel : s.nfds ≤ BITS_PER_USIZE * (0 + FD_SETSIZE_USIZES) := hn
  rw [FdSets.pollAll, pollWords_eq s t FD_SETSIZE_USIZES (Nat.mul_zero _).symm o hfuel,
    Nat.sub_zero, List.range_eq_range']

/-! ## §6 What `select` computes -/

/-- Bit `fd` of an output set as `select` computes it: `fd` is below `nfds`, in the
    caller's set, and ready. -/
def selected (nfds : Nat) (fds : Option FdSet) (ready : Nat → Bool) (fd : Nat) : Bool :=
  decide (fd < nfds) && inSet fds fd && ready fd

/-- Bit `fd` of a caller's set that `select` leaves as it is: one of a word past the first
    `⌈nfds / 64⌉`. -/
def untouched (nfds : Nat) (fds : Option FdSet) (fd : Nat) : Bool :=
  decide (divCeil nfds BITS_PER_USIZE ≤ fd / BITS_PER_USIZE) && inSet fds fd

theorem lt_divCeil_of_lt {n fd : Nat} (hfd : fd < n) :
    fd / BITS_PER_USIZE < divCeil n BITS_PER_USIZE := by
  unfold divCeil BITS_PER_USIZE
  omega

theorem untouched_of_lt {n fd : Nat} (fds : Option FdSet) (hfd : fd < n) :
    untouched n fds fd = false := by
  simp [untouched, lt_divCeil_of_lt hfd]

theorem bitOf_copyFromFdSet_of_lt {n fd : Nat} (fds : Option FdSet) (hfd : fd < n) :
    bitOf (copyFromFdSet (divCeil n BITS_PER_USIZE) fds) fd = inSet fds fd := by
  simp [bitOf_copyFromFdSet, lt_divCeil_of_lt hfd]

theorem from_nfds {n : Nat} (readFds writeFds exceptFds : Option FdSet) (hn : n ≤ FD_SETSIZE) :
    (FdSets.from n readFds writeFds exceptFds).nfds = n :=
  Nat.min_eq_left hn

/-- Below `nfds`, the copied sets hold the caller's bits. -/
theorem bitOf_from {n fd : Nat} (readFds writeFds exceptFds : Option FdSet)
    (hn : n ≤ FD_SETSIZE) (hfd : fd < n) :
    bitOf (FdSets.from n readFds writeFds exceptFds).readBits fd = inSet readFds fd ∧
      bitOf (FdSets.from n readFds writeFds exceptFds).writeBits fd = inSet writeFds fd ∧
      bitOf (FdSets.from n readFds writeFds exceptFds).exceptBits fd = inSet exceptFds fd := by
  simp only [FdSets.from, Nat.min_eq_left hn, bitOf_copyFromFdSet_of_lt _ hfd, and_self]

/-- For `nfds` in `[0, FD_SETSIZE]`, the pass of `sys_select` returns what `poll_all`
    returns from the cleared sets, with its count. -/
theorem sysSelect_of_pollAll {nfds : Int} (readFds writeFds exceptFds : Option FdSet)
    (t : FdTable) (expired : Bool) (hn : 0 ≤ nfds ∧ nfds ≤ FD_SETSIZE)
    {r : LinuxResult SelectOut}
    (hpoll : (FdSets.from nfds.toNat readFds writeFds exceptFds).pollAll t
      ⟨zeroFdSet readFds nfds.toNat, zeroFdSet writeFds nfds.toNat,
        zeroFdSet exceptFds nfds.toNat, 0⟩ = r) :
    sysSelect nfds readFds writeFds exceptFds t expired =
      r.map fun o => (if 0 < o.resNum then some o.resNum else if expired then some 0 else none, o) := by
  have hmin : min nfds.toNat FD_SETSIZE = nfds.toNat := by
    unfold FD_SETSIZE at *
    omega
  subst hpoll
  simp only [sysSelect, Int.not_lt.mpr hn.1, if_false, hmin]
  cases (FdSets.from nfds.toNat readFds writeFds exceptFds).pollAll t _ with
  | error e => rfl
  | ok o =>
    simp only [Except.map]
    rw [show (Except.ok o : LinuxResult SelectOut) = pure o from rfl, pure_bind]
    by_cases hpos : 0 < o.resNum
    · rw [if_pos hpos, if_pos hpos]
      rfl
    · rw [if_neg hpos, if_neg hpos]
      cases expired <;> rfl

/-- One output set after the visits: the caller's set cleared over the first words, with
    the bits of the descriptors below `nfds` that were asked about there and are ready. -/
theorem inSet_output (n : Nat) (fds : Option FdSet) (bits : Nat → Nat) (ready : Nat → Bool)
    (hbits : ∀ fd < n, bitOf bits fd = inSet fds fd) (fd : Nat) :
    (inSet (zeroFdSet fds n) fd ||
        ((zeroFdSet fds n).isSome && decide (fd ∈ List.range n) && (bitOf bits fd && ready fd))) =
      (selected n fds ready fd || untouched n fds fd) := by
  simp only [inSet_zeroFdSet, isSome_zeroFdSet, List.mem_range]
  by_cases hfd : fd < n
  · -- below `nfds`: the word is cleared, and the bit is the poll's
    have hu : decide (divCeil n BITS_PER_USIZE ≤ fd / BITS_PER_USIZE) = false := by
      simp [lt_divCeil_of_lt hfd]
    rw [hbits fd hfd, hu, untouched_of_lt fds hfd]
    cases fds <;> simp [selected, inSet, hfd]
  · simp [selected, untouched, hfd]

/-- The count of the descriptors below `nfds` hit in one set is that of the bits below
    `nfds` in the output set. -/
theorem countP_hit_eq {n : Nat} (hit out : Nat → Bool) (fds : Option FdSet) (ready : Nat → Bool)
    (hhit : ∀ fd < n, hit fd = (inSet fds fd && ready fd))
    (hout : ∀ fd, out fd = (selected n fds ready fd || untouched n fds fd)) :
    (List.range n).countP hit = (List.range n).countP out := by
  apply List.countP_congr
  intro fd hfd
  have hlt := List.mem_range.mp hfd
  rw [hhit fd hlt, hout, untouched_of_lt fds hlt]
  simp [selected, hlt]

section Open

variable (s : FdSets) (t : FdTable) {n : Nat} (readFds writeFds exceptFds : Option FdSet)

/-- `poll_all` over copied sets that hold the caller's bits below `nfds`, every descriptor
    asked about being open, from the cleared sets: each output set holds the ready
    descriptors below `nfds` and, past the cleared words, the caller's bits; the count is
    of the bits below `nfds`. -/
theorem pollAll_of_open (hn : s.nfds = n) (hle : n ≤ FD_SETSIZE)
    (hbits : ∀ fd < n, bitOf s.readBits fd = inSet readFds fd ∧
      bitOf s.writeBits fd = inSet writeFds fd ∧ bitOf s.exceptBits fd = inSet exceptFds fd)
    (hopen : ∀ fd < n,
      (inSet readFds fd || inSet writeFds fd || inSet exceptFds fd) = true → (t.poll fd).isSome) :
    ∃ o : SelectOut,
      s.pollAll t ⟨zeroFdSet readFds n, zeroFdSet writeFds n, zeroFdSet exceptFds n, 0⟩ = .ok o ∧
      (∀ fd, inSet o.readFds fd = (selected n readFds (readReady t) fd || untouched n readFds fd)) ∧
      (∀ fd, inSet o.writeFds fd =
        (selected n writeFds (writeReady t) fd || untouched n writeFds fd)) ∧
      (∀ fd, inSet o.exceptFds fd =
        (selected n exceptFds (pollError t) fd || untouched n exceptFds fd)) ∧
      o.resNum = (List.range n).countP (inSet o.readFds) +
        (List.range n).countP (inSet o.writeFds) + (List.range n).countP (inSet o.exceptFds) := by
  have hopen' : ∀ fd ∈ List.range n, s.asked fd = true → (t.poll fd).isSome := by
    intro fd hfd ha
    have hlt := List.mem_range.mp hfd
    obtain ⟨hr, hw, he⟩ := hbits fd hlt
    exact hopen fd hlt (by rwa [FdSets.asked, hr, hw, he] at ha)
  refine ⟨_, by rw [s.pollAll_eq_foldlM t _ (hn ▸ hle), hn, s.foldlM_step_eq t _ _ hopen'], ?_⟩
  -- each output set, from the visits' effect on it
  have hread : ∀ fd, inSet (((List.range n).foldl (s.mark t)
      ⟨zeroFdSet readFds n, zeroFdSet writeFds n, zeroFdSet exceptFds n, 0⟩).readFds) fd =
      (selected n readFds (readReady t) fd || untouched n readFds fd) := fun fd => by
    rw [inSet_foldl_of_field SelectOut.readFds (s.readHit t) (s.mark t) (s.mark_readFds t)]
    exact inSet_output n readFds s.readBits (readReady t) (fun fd hfd => (hbits fd hfd).1) fd
  have hwrite : ∀ fd, inSet (((List.range n).foldl (s.mark t)
      ⟨zeroFdSet readFds n, zeroFdSet writeFds n, zeroFdSet exceptFds n, 0⟩).writeFds) fd =
      (selected n writeFds (writeReady t) fd || untouched n writeFds fd) := fun fd => by
    rw [inSet_foldl_of_field SelectOut.writeFds (s.writeHit t) (s.mark t) (s.mark_writeFds t)]
    exact inSet_output n writeFds s.writeBits (writeReady t) (fun fd hfd => (hbits fd hfd).2.1) fd
  have hexcept : ∀ fd, inSet (((List.range n).foldl (s.mark t)
      ⟨zeroFdSet readFds n, zeroFdSet writeFds n, zeroFdSet exceptFds n, 0⟩).exceptFds) fd =
      (selected n exceptFds (pollError t) fd || untouched n exceptFds fd) := fun fd => by
    rw [inSet_foldl_of_field SelectOut.exceptFds (s.exceptHit t) (s.mark t) (s.mark_exceptFds t)]
    exact inSet_output n exceptFds s.exceptBits (pollError t) (fun fd hfd => (hbits fd hfd).2.2) fd
  refine ⟨hread, hwrite, hexcept, ?_⟩
  -- the count, one set at a time
  rw [s.resNum_foldl_mark, Nat.zero_add,
    countP_hit_eq (s.readHit t) _ readFds (readReady t)
      (fun fd hfd => by rw [FdSets.readHit, (hbits fd hfd).1]) hread,
    countP_hit_eq (s.writeHit t) _ writeFds (writeReady t)
      (fun fd hfd => by rw [FdSets.writeHit, (hbits fd hfd).2.1]) hwrite,
    countP_hit_eq (s.exceptHit t) _ exceptFds (pollError t)
      (fun fd hfd => by rw [FdSets.exceptHit, (hbits fd hfd).2.2]) hexcept]

/-- `poll_all` over copied sets that hold the caller's bits below `nfds` fails with
    `EBADF` when a descriptor below `nfds` asked about is not open. -/
theorem pollAll_of_not_open (o : SelectOut) (hn : s.nfds = n) (hle : n ≤ FD_SETSIZE)
    (hbits : ∀ fd < n, bitOf s.readBits fd = inSet readFds fd ∧
      bitOf s.writeBits fd = inSet writeFds fd ∧ bitOf s.exceptBits fd = inSet exceptFds fd)
    (hbad : ∃ fd < n, (inSet readFds fd || inSet writeFds fd || inSet exceptFds fd) = true ∧
      t.poll fd = none) :
    s.pollAll t o = .error .EBADF := by
  obtain ⟨fd, hlt, hask, hnone⟩ := hbad
  obtain ⟨hr, hw, he⟩ := hbits fd hlt
  rw [s.pollAll_eq_foldlM t o (hn ▸ hle), hn]
  exact s.foldlM_step_ebadf t _ o
    ⟨fd, List.mem_range.mpr hlt, by rwa [FdSets.asked, hr, hw, he], hnone⟩

end Open

/-- `select` for `nfds` in `[0, FD_SETSIZE]`. When every descriptor below `nfds` asked
    about is open, the pass returns the count of ready ones (or yields, or times out, with
    none), each output set holds the ready descriptors below `nfds` and, in the words past
    the first `⌈nfds / 64⌉`, the caller's own bits, and the count is that of the output bits
    below `nfds`. When one is not open, the call fails with `EBADF`. -/
theorem select_ready_sets (nfds : Int) (readFds writeFds exceptFds : Option FdSet)
    (t : FdTable) (expired : Bool) (hn : 0 ≤ nfds ∧ nfds ≤ FD_SETSIZE) :
    ((∀ fd < nfds.toNat,
        (inSet readFds fd || inSet writeFds fd || inSet exceptFds fd) = true →
          (t.poll fd).isSome) →
      ∃ o : SelectOut,
        sysSelect nfds readFds writeFds exceptFds t expired =
          .ok (if 0 < o.resNum then some o.resNum else if expired then some 0 else none, o) ∧
        (∀ fd, inSet o.readFds fd =
          (selected nfds.toNat readFds (readReady t) fd || untouched nfds.toNat readFds fd)) ∧
        (∀ fd, inSet o.writeFds fd =
          (selected nfds.toNat writeFds (writeReady t) fd || untouched nfds.toNat writeFds fd)) ∧
        (∀ fd, inSet o.exceptFds fd =
          (selected nfds.toNat exceptFds (pollError t) fd || untouched nfds.toNat exceptFds fd)) ∧
        o.resNum = (List.range nfds.toNat).countP (inSet o.readFds) +
          (List.range nfds.toNat).countP (inSet o.writeFds) +
          (List.range nfds.toNat).countP (inSet o.exceptFds)) ∧
    ((∃ fd < nfds.toNat,
        (inSet readFds fd || inSet writeFds fd || inSet exceptFds fd) = true ∧ t.poll fd = none) →
      sysSelect nfds readFds writeFds exceptFds t expired = .error .EBADF) := by
  have hle : nfds.toNat ≤ FD_SETSIZE := by
    unfold FD_SETSIZE at *
    omega
  have hbits := fun fd (hfd : fd < nfds.toNat) => bitOf_from readFds writeFds exceptFds hle hfd
  constructor
  · intro hopen
    obtain ⟨o, hpoll, hsets⟩ := pollAll_of_open _ t readFds writeFds exceptFds
      (from_nfds _ _ _ hle) hle hbits hopen
    exact ⟨o, by rw [sysSelect_of_pollAll readFds writeFds exceptFds t expired hn hpoll]; rfl, hsets⟩
  · intro hbad
    rw [sysSelect_of_pollAll readFds writeFds exceptFds t expired hn
      (pollAll_of_not_open _ t readFds writeFds exceptFds _ (from_nfds _ _ _ hle) hle hbits hbad)]
    rfl

/-- A table where descriptor `0` polls readable, `64` polls writable, and nothing else is
    open. -/
def sampleTable : FdTable :=
  ⟨fun fd => if fd = 0 then some (.ok ⟨true, false⟩)
    else if fd = 64 then some (.ok ⟨false, true⟩) else none⟩

/-- A read set holding descriptors `0` and `64`. -/
def sampleReadFds : Option FdSet := some ⟨fun w => if w ≤ 1 then 1 else 0⟩

/-- For `nfds = 65`, asking to read `0` and `64`: one descriptor is ready, `0`, and bit
    `64` is cleared. -/
theorem select_sample_reads_one :
    ∃ o : SelectOut, sysSelect 65 sampleReadFds none none sampleTable false = .ok (some 1, o) ∧
      inSet o.readFds 0 = true ∧ inSet o.readFds 64 = false := by
  obtain ⟨o, hcall, hread, hwrite, hexcept, hcount⟩ :=
    (select_ready_sets 65 sampleReadFds none none sampleTable false ⟨by decide, by decide⟩).1
      (by decide)
  have hres : o.resNum = 1 := by
    rw [hcount, funext hread, funext hwrite, funext hexcept]
    decide
  refine ⟨o, by rw [hcall, hres]; rfl, ?_, ?_⟩
  · rw [hread]
    decide
  · rw [hread]
    decide

/-- For `nfds = 1`, asking to read `0` and `64`, with `0` readable: the call counts one
    descriptor, and bit `64`, an index past `nfds`, stays set in the output. -/
theorem select_keeps_bits_past_nfds_word :
    ∃ o : SelectOut, sysSelect 1 sampleReadFds none none sampleTable false = .ok (some 1, o) ∧
      inSet o.readFds 0 = true ∧ inSet o.readFds 64 = true := by
  refine ⟨_, rfl, ?_⟩
  decide

end ArceOS.Posix.Select
