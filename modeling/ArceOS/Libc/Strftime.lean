import ArceOS.Lib.ByteStore
import ArceOS.Libc.Mktime

/-!
# `strftime` of `axlibc`

`strftime.rs` expands the format in `inner_strftime`, which writes each piece through a
`CountingWriter` wrapped around a `StringWriter` over the caller's buffer, and returns the
count when it is below `size`. The model separates the two: `innerStrftime` computes the
pieces the `w!` calls write, in order, and `strftimeInner` passes them through the two
writers. The sub-formats of `%D`, `%F`, `%r`, `%R`, `%T` and `%+` recurse into
`inner_strftime`; they nest two deep (`%+` reaches `%T`), so the model recurses with a
depth bound of three, and `innerStrftime_fuel` shows that more changes nothing.

Rust's integer formatting (`{}`, `{:02}`, `{:2}`, `{:03}`) is modelled as documented:
right-aligned, with zeros placed after the sign. The `struct tm` fields are `Int`s; the
`i32` overflow of its arithmetic at extreme field values is not modelled.

## Main results

- `written_foldl`: `CountingWriter` counts every byte of the expansion, whether or not it
  reaches the buffer;
- `foldl_write_frame`: no byte outside `[buf, buf + size)` is written;
- `foldl_write_mem`: with `size ≥ 2`, a non-empty expansion leaves its first
  `min |E| (size - 1)` bytes in the buffer, followed by a NUL;
- `innerStrftime_fuel`: the depth bound is never reached;
- `strftime_frame`, `strftime_buffer`: the buffer contract of `strftime` for every format,
  and its contents for a complete, non-empty expansion.
-/

namespace ArceOS.Libc

open ArceOS.Lib.ByteStore

/-! ## §1 The writers -/

/-- `StringWriter(ptr, rem)` in the memory `mem`. -/
structure StringWriter where
  mem : Nat → UInt8
  ptr : Nat
  rem : Nat

/-- `StringWriter::write`: when more than one byte remains, copy what fits before the
    last one and store a NUL after the copy; either way report all of `buf` written. -/
def StringWriter.write (w : StringWriter) (buf : List UInt8) : StringWriter :=
  if 1 < w.rem then
    { mem := Function.update (writeRange w.mem w.ptr (buf.take (min buf.length (w.rem - 1))))
        (w.ptr + min buf.length (w.rem - 1)) 0
      ptr := w.ptr + min buf.length (w.rem - 1)
      rem := w.rem - min buf.length (w.rem - 1) }
  else w

/-- `CountingWriter<StringWriter>`. -/
structure CountingWriter where
  inner : StringWriter
  written : Nat

/-- `CountingWriter::write_str`: count the bytes, then `StringWriter::write_str`, which is
    `StringWriter::write`. `write_u8(b)` is `write_str` of the one byte `b`. -/
def CountingWriter.writeStr (w : CountingWriter) (s : List UInt8) : CountingWriter :=
  ⟨w.inner.write s, w.written + s.length⟩

/-! ## §2 Formatting -/

/-- The bytes of an ASCII text. -/
def ascii (s : List Char) : List UInt8 := s.map fun c => c.toNat.toUInt8

/-- The decimal digits of `n`. -/
def decDigits (n : Nat) : List UInt8 := (Nat.toDigits 10 n).map fun c => c.toNat.toUInt8

/-- Rust's `{:w}` (`zeroPad = false`) and `{:0w}` (`zeroPad = true`) of an integer:
    right-aligned in `w` columns, padded with spaces before the sign or zeros after it.
    `{}` is `{:0}`. -/
def fmtInt (zeroPad : Bool) (width : Nat) (n : Int) : List UInt8 :=
  let sign : List UInt8 := if n < 0 then [45] else []
  let digits := decDigits n.natAbs
  let pad := width - (sign.length + digits.length)
  if zeroPad then sign ++ List.replicate pad 48 ++ digits
  else List.replicate pad 32 ++ sign ++ digits

/-- `WDAYS`. -/
def WDAYS : List String :=
  ["Sunday", "Monday", "Tuesday", "Wednesday", "Thursday", "Friday", "Saturday"]

/-- `MONTHS`, as the source spells them. -/
def MONTHS : List String :=
  ["January", "Febuary", "March", "April", "May", "June", "July", "August", "September",
    "October", "November", "December"]

/-- `ARRAY[i as usize]`: a panic outside the array, where a negative `i` is a huge index. -/
def arrayIndex (xs : List String) (i : Int) : Except Fault String :=
  if i < 0 then .error (.panic "index out of bounds")
  else
    match xs[i.toNat]? with
    | some s => .ok s
    | none => .error (.panic "index out of bounds")

/-! ## §3 The expansion -/

/-- What `inner_strftime` writes, piece by piece (one piece per `w!`), and whether it
    returns `true` (it reached the NUL) or `false` (an unknown conversion); a panic is
    an `error`. -/
abbrev Expansion := Except Fault (List (List UInt8) × Bool)

/-- Go on with `k` unless `e` returned `false` or panicked. -/
def andThen (e k : Expansion) : Expansion :=
  match e with
  | .error f => .error f
  | .ok (cs, false) => .ok (cs, false)
  | .ok (cs, true) =>
    match k with
    | .error f => .error f
    | .ok (cs', b) => .ok (cs ++ cs', b)

/-- The conversions that write one piece: the piece, or `none` for `_ => return false`. -/
def simpleConversion (t : Tm) (c : UInt8) : Except Fault (Option (List UInt8)) :=
  match c with
  | 37 => .ok (some [37])                                                         -- `%`
  | 110 => .ok (some [10])                                                        -- `n`
  | 116 => .ok (some [9])                                                         -- `t`
  | 97 => (arrayIndex WDAYS t.tmWday).map fun s => some ((ascii s.toList).take 3) -- `a`
  | 65 => (arrayIndex WDAYS t.tmWday).map fun s => some (ascii s.toList)          -- `A`
  | 98 | 104 => (arrayIndex MONTHS t.tmMon).map fun s => some ((ascii s.toList).take 3) -- `b` `h`
  | 66 => (arrayIndex MONTHS t.tmMon).map fun s => some (ascii s.toList)          -- `B`
  | 67 =>                                                                         -- `C`
    -- `year = tm_year / 100`, rounded up when `tm_year % 100 != 0`
    let year := t.tmYear.tdiv 100 + if t.tmYear.tmod 100 ≠ 0 then 1 else 0
    .ok (some (fmtInt true 2 (year + 19)))
  | 100 => .ok (some (fmtInt true 2 t.tmMday))                                    -- `d`
  | 101 => .ok (some (fmtInt false 2 t.tmMday))                                   -- `e`
  | 72 => .ok (some (fmtInt true 2 t.tmHour))                                     -- `H`
  | 73 => .ok (some (fmtInt true 2 ((t.tmHour + 12 - 1).tmod 12 + 1)))            -- `I`
  | 106 => .ok (some (fmtInt true 3 t.tmYday))                                    -- `j`
  | 107 => .ok (some (fmtInt false 2 t.tmHour))                                   -- `k`
  | 108 => .ok (some (fmtInt false 2 ((t.tmHour + 12 - 1).tmod 12 + 1)))          -- `l`
  | 109 => .ok (some (fmtInt true 2 (t.tmMon + 1)))                               -- `m`
  | 77 => .ok (some (fmtInt true 2 t.tmMin))                                      -- `M`
  | 112 => .ok (some (ascii (if t.tmHour < 12 then "AM" else "PM").toList))       -- `p`
  | 80 => .ok (some (ascii (if t.tmHour < 12 then "am" else "pm").toList))        -- `P`
  | 115 => (mktime t).map fun v => some (fmtInt false 0 v)                        -- `s`
  | 83 => .ok (some (fmtInt true 2 t.tmSec))                                      -- `S`
  | 117 => .ok (some (fmtInt false 0 ((t.tmWday + 7 - 1).tmod 7 + 1)))            -- `u`
  | 85 => .ok (some (fmtInt false 0 ((t.tmYday + 7 - t.tmWday).tdiv 7)))          -- `U`
  | 119 => .ok (some (fmtInt false 0 t.tmWday))                                   -- `w`
  | 87 =>                                                                         -- `W`
    .ok (some (fmtInt false 0 ((t.tmYday + 7 - (t.tmWday + 6).tmod 7).tdiv 7)))
  | 121 => .ok (some (fmtInt true 2 (t.tmYear.tmod 100)))                         -- `y`
  | 89 => .ok (some (fmtInt false 0 (t.tmYear + 1900)))                           -- `Y`
  | 122 => .ok (some (ascii "+0000".toList))                                      -- `z`
  | 90 => .ok (some (ascii "UTC".toList))                                         -- `Z`
  | _ => .ok none

/-- The conversions that `recurse` into a sub-format, and that sub-format, spelled out
    as characters: `"%m/%d/%y"`, `"%Y-%m-%d"`, `"%I:%M:%S %p"`, `"%H:%M"`, `"%H:%M:%S"`
    and `"%a %b %d %T %Z %Y"`. -/
def composite : UInt8 → Option (List UInt8)
  | 68 => some (ascii ['%', 'm', '/', '%', 'd', '/', '%', 'y'])                   -- `D`
  | 70 => some (ascii ['%', 'Y', '-', '%', 'm', '-', '%', 'd'])                   -- `F`
  | 114 => some (ascii ['%', 'I', ':', '%', 'M', ':', '%', 'S', ' ', '%', 'p'])   -- `r`
  | 82 => some (ascii ['%', 'H', ':', '%', 'M'])                                  -- `R`
  | 84 => some (ascii ['%', 'H', ':', '%', 'M', ':', '%', 'S'])                   -- `T`
  | 43 =>                                                                         -- `+`
    some (ascii ['%', 'a', ' ', '%', 'b', ' ', '%', 'd', ' ', '%', 'T', ' ', '%', 'Z', ' ',
      '%', 'Y'])
  | _ => none

/-- The `match *format as u8` of `inner_strftime`, with `recurse` the recursive call. -/
def conversion (t : Tm) (recurse : List UInt8 → Expansion) (c : UInt8) : Expansion :=
  match composite c with
  | some f => recurse f
  | none =>
    match simpleConversion t c with
    | .error f => .error f
    | .ok (some piece) => .ok ([piece], true)
    | .ok none => .ok ([], false)

/-- The `while *format != 0` loop over the format's bytes (the list ends at the NUL): a
    plain byte is written as it is; a `%`, after an ignored `E` or `O`, is a conversion,
    and a NUL in its place is an unknown conversion. -/
def formatLoop (t : Tm) (recurse : List UInt8 → Expansion) : List UInt8 → Expansion
  | [] => .ok ([], true)
  | c :: rest =>
    if c ≠ 37 then andThen (.ok ([[c]], true)) (formatLoop t recurse rest)
    else
      match rest with
      | [] => .ok ([], false)
      | d :: rest' =>
        if d = 69 ∨ d = 79 then
          match rest' with
          | [] => .ok ([], false)
          | e :: rest'' => andThen (conversion t recurse e) (formatLoop t recurse rest'')
        else andThen (conversion t recurse d) (formatLoop t recurse rest')

/-- `inner_strftime`, recursing at most `depth - 1` times into sub-formats. -/
def innerStrftime (t : Tm) : Nat → List UInt8 → Expansion
  | 0, _ => .ok ([], false)
  | depth + 1, format => formatLoop t (innerStrftime t depth) format

/-- `strftime_inner` on a `StringWriter`: write the pieces through a fresh
    `CountingWriter`, and return its count, or 0 after `return false`. -/
def strftimeInner (w : StringWriter) (format : List UInt8) (t : Tm) :
    Except Fault (Nat × StringWriter) :=
  match innerStrftime t 3 format with
  | .error f => .error f
  | .ok (pieces, ok) =>
    let cw := pieces.foldl CountingWriter.writeStr ⟨w, 0⟩
    .ok (if ok then cw.written else 0, cw.inner)

/-- `strftime(buf, size, format, t)` with the memory `mem`: the value returned and the
    memory after. -/
def strftime (mem : Nat → UInt8) (buf size : Nat) (format : List UInt8) (t : Tm) :
    Except Fault (Nat × (Nat → UInt8)) :=
  match strftimeInner ⟨mem, buf, size⟩ format t with
  | .error f => .error f
  | .ok (ret, w) => .ok (if ret < size then ret else 0, w.mem)

/-! ## §4 The writers over a whole expansion -/

/-- `CountingWriter` counts every byte handed to it. -/
theorem written_foldl (cs : List (List UInt8)) (w : CountingWriter) :
    (cs.foldl CountingWriter.writeStr w).written = w.written + cs.flatten.length := by
  induction cs generalizing w with
  | nil => rfl
  | cons c cs ih =>
    rw [List.foldl_cons, ih, List.flatten_cons, List.length_append]
    simp only [CountingWriter.writeStr]
    omega

/-- The `StringWriter` inside sees the same writes. -/
theorem inner_foldl (cs : List (List UInt8)) (w : CountingWriter) :
    (cs.foldl CountingWriter.writeStr w).inner = cs.foldl StringWriter.write w.inner := by
  induction cs generalizing w with
  | nil => rfl
  | cons c cs ih => exact ih _

theorem write_of_rem_le_one {w : StringWriter} (h : w.rem ≤ 1) (buf : List UInt8) :
    w.write buf = w := if_neg (by omega)

/-- A write keeps `ptr + rem`, the end of the buffer. -/
theorem write_ptr_add_rem (w : StringWriter) (buf : List UInt8) :
    (w.write buf).ptr + (w.write buf).rem = w.ptr + w.rem := by
  unfold StringWriter.write
  split_ifs with h
  · dsimp only
    omega
  · rfl

theorem le_write_ptr (w : StringWriter) (buf : List UInt8) : w.ptr ≤ (w.write buf).ptr := by
  unfold StringWriter.write
  split_ifs
  · exact Nat.le_add_right _ _
  · exact Nat.le_refl _

/-- A write stores only in `[ptr, ptr + rem)`. -/
theorem write_mem_of_not_mem (w : StringWriter) (buf : List UInt8) {j : Nat}
    (hj : j < w.ptr ∨ w.ptr + w.rem ≤ j) : (w.write buf).mem j = w.mem j := by
  unfold StringWriter.write
  split_ifs with h
  · dsimp only
    rw [Function.update_of_ne (by omega)]
    rcases hj with hj | hj
    · exact writeRange_of_lt hj
    · exact writeRange_of_ge (by simp; omega)
  · rfl

/-- So do all the writes of an expansion: nothing outside the buffer changes. -/
theorem foldl_write_frame (cs : List (List UInt8)) (w : StringWriter) {j : Nat}
    (hj : j < w.ptr ∨ w.ptr + w.rem ≤ j) : (cs.foldl StringWriter.write w).mem j = w.mem j := by
  induction cs generalizing w with
  | nil => rfl
  | cons c cs ih =>
    -- the window `[ptr, ptr + rem)` only shrinks from the left
    have hptr := le_write_ptr w c
    have hend := write_ptr_add_rem w c
    rw [List.foldl_cons, ih (w.write c) (by omega), write_mem_of_not_mem w c hj]

/-- The writer after `E` went through `StringWriter::write` from `w₀`, at least one call
    having found more than one byte left: the first `k = min |E| (rem₀ - 1)` bytes of `E`
    stand from `ptr₀`, with a NUL after them, and the pointer is on that NUL. -/
def Wrote (w₀ : StringWriter) (E : List UInt8) (w : StringWriter) : Prop :=
  w.ptr = w₀.ptr + min E.length (w₀.rem - 1) ∧
    w.rem = w₀.rem - min E.length (w₀.rem - 1) ∧
    w.mem = Function.update (writeRange w₀.mem w₀.ptr (E.take (min E.length (w₀.rem - 1))))
      (w₀.ptr + min E.length (w₀.rem - 1)) 0

theorem wrote_write_first {w₀ : StringWriter} (h : 1 < w₀.rem) (buf : List UInt8) :
    Wrote w₀ buf (w₀.write buf) := by
  unfold StringWriter.write
  rw [if_pos h]
  exact ⟨rfl, rfl, rfl⟩

/-- One more write extends what stands in the buffer, or does nothing once it is full. -/
theorem wrote_write {w₀ w : StringWriter} {E : List UInt8} (h : 1 < w₀.rem)
    (hw : Wrote w₀ E w) (buf : List UInt8) : Wrote w₀ (E ++ buf) (w.write buf) := by
  obtain ⟨hptr, hrem, hmem⟩ := hw
  by_cases hfull : w.rem ≤ 1
  · -- the buffer is full: the write does nothing, and `E` already reached the bound
    rw [write_of_rem_le_one hfull]
    have hk : min (E ++ buf).length (w₀.rem - 1) = min E.length (w₀.rem - 1) := by
      simp only [List.length_append]
      omega
    have htake : (E ++ buf).take (min E.length (w₀.rem - 1)) =
        E.take (min E.length (w₀.rem - 1)) :=
      List.take_append_of_le_length (Nat.min_le_left _ _)
    refine ⟨?_, ?_, ?_⟩ <;> simp only [hk, htake] <;> assumption
  · -- room is left, so all of `E` stands and the new bytes follow it
    have hE : min E.length (w₀.rem - 1) = E.length := by omega
    have hn : min (E ++ buf).length (w₀.rem - 1) = E.length + min buf.length (w.rem - 1) := by
      simp only [List.length_append]
      omega
    unfold StringWriter.write
    rw [if_pos (by omega)]
    refine ⟨?_, ?_, ?_⟩
    · simp only [hn, hptr, hE]
      omega
    · simp only [hn, hrem, hE]
      omega
    · simp only [hn, hmem, hptr, hE, List.take_length]
      rw [List.take_length_add_append, writeRange_append, ← Nat.add_assoc]
      -- the NUL stored after `E` is overwritten by the new bytes, or stored again
      have key := update_writeRange_update (writeRange w₀.mem w₀.ptr E) (w₀.ptr + E.length) 0
        (buf.take (min buf.length (w.rem - 1)))
      rwa [List.length_take, Nat.min_eq_left (Nat.min_le_left _ _)] at key

/-- So do any number of writes. -/
theorem wrote_foldl {w₀ w : StringWriter} {E : List UInt8} (h : 1 < w₀.rem)
    (hw : Wrote w₀ E w) (cs : List (List UInt8)) :
    Wrote w₀ (E ++ cs.flatten) (cs.foldl StringWriter.write w) := by
  induction cs generalizing E w with
  | nil => simpa using hw
  | cons c cs ih =>
    rw [List.foldl_cons, List.flatten_cons, ← List.append_assoc]
    exact ih (wrote_write h hw c)

/-- With room for more than the NUL, a non-empty run of writes leaves the first
    `min |E| (rem - 1)` bytes of the whole `E` with a NUL after them. -/
theorem foldl_write_mem {w : StringWriter} (h : 1 < w.rem) (c : List UInt8)
    (cs : List (List UInt8)) :
    Wrote w (c :: cs).flatten ((c :: cs).foldl StringWriter.write w) := by
  rw [List.foldl_cons, List.flatten_cons]
  exact wrote_foldl h (wrote_write_first h c) cs

/-! ## §5 The depth bound -/

theorem conversion_congr (t : Tm) {r r' : List UInt8 → Expansion} {c : UInt8}
    (h : ∀ f, composite c = some f → r f = r' f) : conversion t r c = conversion t r' c := by
  unfold conversion
  cases hc : composite c with
  | none => rfl
  | some f => exact h f hc

/-- The loop calls `recurse` only on the sub-formats of the conversions it meets. -/
theorem formatLoop_congr (t : Tm) {r r' : List UInt8 → Expansion} (fmt : List UInt8)
    (h : ∀ c ∈ fmt, ∀ f, composite c = some f → r f = r' f) :
    formatLoop t r fmt = formatLoop t r' fmt := by
  fun_induction formatLoop t r fmt with
  | case1 => rfl
  | case2 c rest hc ih =>
    -- a plain byte, then the rest of the format
    conv_rhs => unfold formatLoop
    rw [if_pos hc, ih fun x hx => h x (List.mem_cons_of_mem c hx)]
  | case3 c hc =>
    conv_rhs => unfold formatLoop
    rw [if_neg hc]
  | case4 c hc d hd =>
    conv_rhs => unfold formatLoop
    simp only [if_neg hc, if_pos hd]
  | case5 c hc d hd e rest ih =>
    -- a conversion after `E` or `O`
    conv_rhs => unfold formatLoop
    simp only [if_neg hc, if_pos hd]
    rw [conversion_congr t (h e (by simp)), ih fun x hx => h x (by simp [hx])]
  | case6 c hc d rest hd ih =>
    conv_rhs => unfold formatLoop
    simp only [if_neg hc, if_neg hd]
    rw [conversion_congr t (h d (by simp)), ih fun x hx => h x (by simp [hx])]

/-- The sub-formats of composite conversions nest one level only: what they recurse into
    has no composite conversion. -/
theorem composite_nested {c : UInt8} {f : List UInt8} (hf : composite c = some f) :
    ∀ c' ∈ f, (composite c').all (fun f' => f'.all fun x => (composite x).isNone) = true := by
  unfold composite at hf
  -- evaluated by the kernel: under all of Mathlib the elaborator's evaluation of these
  -- list quantifiers runs out of recursion depth
  split at hf <;> cases hf <;> decide +kernel

/-- A format without composite conversions expands alike at every depth. -/
theorem innerStrftime_of_leaf (t : Tm) (n : Nat) {fmt : List UInt8}
    (hleaf : ∀ c ∈ fmt, composite c = none) :
    innerStrftime t (n + 1) fmt = innerStrftime t 1 fmt :=
  formatLoop_congr t fmt fun c hc f hf => by rw [hleaf c hc] at hf; cases hf

/-- The depth bound is never reached: with more depth every format expands alike. -/
theorem innerStrftime_fuel (t : Tm) (n : Nat) (fmt : List UInt8) :
    innerStrftime t (n + 3) fmt = innerStrftime t 3 fmt := by
  show formatLoop t (innerStrftime t (n + 2)) fmt = formatLoop t (innerStrftime t 2) fmt
  apply formatLoop_congr t fmt
  intro c _ f hf
  -- a sub-format of the format: its own sub-formats have no composite conversion
  show formatLoop t (innerStrftime t (n + 1)) f = formatLoop t (innerStrftime t 1) f
  apply formatLoop_congr t f
  intro c' hc' f' hf'
  have hleaf := composite_nested hf c' hc'
  rw [hf', Option.all_some, List.all_eq_true] at hleaf
  exact innerStrftime_of_leaf t n fun x hx => Option.isNone_iff_eq_none.mp (hleaf x hx)

/-! ## §6 The buffer contract -/

/-- `strftime` from the expansion: the count when the expansion completed below `size`,
    and the memory the pieces leave through `StringWriter::write`. -/
theorem strftime_eq {mem : Nat → UInt8} {buf size : Nat} {format : List UInt8} {t : Tm}
    {pieces : List (List UInt8)} {ok : Bool}
    (hexp : innerStrftime t 3 format = .ok (pieces, ok)) :
    strftime mem buf size format t =
      .ok (if ok ∧ pieces.flatten.length < size then pieces.flatten.length else 0,
        (pieces.foldl StringWriter.write ⟨mem, buf, size⟩).mem) := by
  simp only [strftime, strftimeInner, hexp, written_foldl, inner_foldl, Nat.zero_add]
  cases ok <;> simp

/-- Whatever the format, `strftime` changes no byte outside `[buf, buf + size)`. -/
theorem strftime_frame {mem mem' : Nat → UInt8} {buf size r : Nat} {format : List UInt8}
    {t : Tm} (h : strftime mem buf size format t = .ok (r, mem')) {j : Nat}
    (hj : j < buf ∨ buf + size ≤ j) : mem' j = mem j := by
  rcases hexp : innerStrftime t 3 format with f | ⟨pieces, ok⟩
  · simp [strftime, strftimeInner, hexp] at h
  · rw [strftime_eq hexp] at h
    obtain ⟨-, rfl⟩ := Prod.mk.inj (Except.ok.inj h)
    exact foldl_write_frame pieces ⟨mem, buf, size⟩ hj

/-- A complete, non-empty expansion `E` with `size ≥ 2`: the first `min |E| (size - 1)`
    bytes of `E` stand from `buf` with a NUL after them, and `|E|` is returned when it is
    below `size`, 0 otherwise. -/
theorem strftime_buffer {mem : Nat → UInt8} {buf size : Nat} {format : List UInt8} {t : Tm}
    {c : List UInt8} {cs : List (List UInt8)}
    (hexp : innerStrftime t 3 format = .ok (c :: cs, true)) (hsize : 1 < size) :
    strftime mem buf size format t =
      .ok (if (c :: cs).flatten.length < size then (c :: cs).flatten.length else 0,
        Function.update
          (writeRange mem buf ((c :: cs).flatten.take (min (c :: cs).flatten.length (size - 1))))
          (buf + min (c :: cs).flatten.length (size - 1)) 0) := by
  rw [strftime_eq hexp, (foldl_write_mem (w := ⟨mem, buf, size⟩) hsize c cs).2.2]
  simp

/-- An empty format makes no write at all, so not even the NUL is stored, and `strftime`
    returns 0 with the memory as it was. -/
theorem strftime_empty_format_stores_no_nul (mem : Nat → UInt8) (buf size : Nat) (t : Tm) :
    strftime mem buf size [] t = .ok (0, mem) := by
  simp [strftime, strftimeInner, innerStrftime, formatLoop]

/-! ## §7 The conversions -/

/-- `%C` rounds the century up: from the year 1900 on it is `(tm_year + 1900) / 100`, plus
    one unless `tm_year` is a multiple of 100. -/
theorem simpleConversion_C (t : Tm) (h : 0 ≤ t.tmYear) :
    simpleConversion t 67 = .ok (some (fmtInt true 2
      ((t.tmYear + 1900) / 100 + if t.tmYear % 100 = 0 then 0 else 1))) := by
  -- the `C` arm of the match, with `/` and `%` of a non-negative year as floor operations
  show Except.ok (some (fmtInt true 2
    ((t.tmYear.tdiv 100 + if t.tmYear.tmod 100 ≠ 0 then 1 else 0) + 19))) = _
  rw [Int.tdiv_eq_ediv_of_nonneg h, Int.tmod_eq_emod_of_nonneg h]
  congr 3
  split_ifs <;> omega

/-- Saturday 3 February 2001 (`tm_yday = 33`): `%B` spells "Febuary", `%C` gives the
    century as 21, `%j` gives the 34th day as 033, and `%U` gives week 4 as one digit. -/
theorem strftime_conversions_diverge :
    innerStrftime ⟨0, 0, 0, 3, 1, 101, 6, 33⟩ 3
        (ascii ['%', 'B', ' ', '%', 'C', ' ', '%', 'j', ' ', '%', 'U']) =
      .ok ([ascii "Febuary".toList, [32], ascii ['2', '1'], [32], ascii ['0', '3', '3'], [32],
        ascii ['4']], true) := by
  decide

end ArceOS.Libc
