import ArceOS.Mm.AreaData

/-!
# The Blocks a Task Owns

A task owns two heap blocks: its kernel stack (`TaskStack` of `axtask/src/task.rs`) and
its extension data (`AxTaskExt` of `axtask/src/task_ext.rs`). `TaskInner::new` allocates the
stack with the layout `(align_up_4k(stack_size), 16)` and keeps the layout to free it with.
`init_task_ext` writes the extension data, allocating its block with the size and
alignment `def_task_ext!` registered for the extension type (`__AX_TASK_EXT_SIZE`,
`__AX_TASK_EXT_ALIGN`). When `gc_entry` drops an exited task, the stack is freed first and
the extension block second, as the fields of `TaskInner` are declared.

`AxTaskExt::drop` rebuilds the layout with the alignment `0x10` instead of the registered
one. `dealloc` with a layout other than the block's is undefined (`Libc.dealloc`), so for
an extension type whose alignment is not `16` the drop of every task that holds one is
undefined; with alignment `16` the task gives back exactly the blocks it took.

## Main results

- `TaskStack.drop_alloc`: for every stack size, the stack is freed with the layout it was
  allocated with;
- `AxTaskExt.drop_uninited`: with alignment `16`, dropping the extension gives the heap
  back; `AxTaskExt.drop_uninited_of_align_ne`: with any other alignment the drop is
  undefined;
- `taskLife_of_align_eq`, `taskLife_of_align_ne`: the same for a whole task, created,
  given its extension and collected;
- `task_ext_drop_layout_mismatch`: the extension of the `def_task_ext!` documentation, eight
  bytes aligned to eight.
-/

namespace ArceOS.Task

open ArceOS.Libc ArceOS.Mm

/-! ## §1 The extension -/

/-- What `def_task_ext!` registers: `__AX_TASK_EXT_SIZE` and `__AX_TASK_EXT_ALIGN`, the size
    and alignment of the extension type, both `0` when no type is registered. -/
structure TaskExtDef where
  size : Nat
  align : Nat
  deriving DecidableEq, Repr

/-- `AxTaskExt`: the pointer to the extension's block, `0` when null. -/
structure AxTaskExt where
  ptr : Nat
  deriving DecidableEq, Repr

namespace AxTaskExt

/-- `AxTaskExt::empty`. -/
def empty : AxTaskExt := ⟨0⟩

/-- `is_empty`. -/
def isEmpty (ext : AxTaskExt) : Bool := ext.ptr == 0

/-- `uninited`: a block of the registered layout, or null for a type of size `0`. -/
def uninited (A : Allocator) (d : TaskExtDef) (h : Heap) : Except Fault (AxTaskExt × Heap) :=
  if d.size = 0 then .ok (⟨0⟩, h)
  else
    match Layout.fromSizeAlign d.size d.align with
    | none => .error layoutError
    | some layout => (alloc A h layout).map fun r => (⟨r.1⟩, r.2)

/-- `write::<T>(data)` for a `T` of size `dataSize` and alignment `dataAlign`: whether it
    returned `Some`, the extension and the heap. The bytes of the data are not modelled. -/
def write (A : Allocator) (d : TaskExtDef) (dataSize dataAlign : Nat) (ext : AxTaskExt)
    (h : Heap) : Except Fault (Bool × AxTaskExt × Heap) :=
  if dataSize ≠ d.size then
    .error (.panic ("size mismatch: " ++ toString dataSize ++ " != " ++ toString d.size))
  else if dataAlign ≠ d.align then
    .error (.panic ("align mismatch: " ++ toString dataAlign ++ " != " ++ toString d.align))
  else do
    let (ext, h) ← if ext.ptr = 0 then uninited A d h else pure (ext, h)
    if 0 < dataSize then
      if ext.ptr = 0 then .error (.panic "assertion failed: !ptr.is_null()")
      else pure (true, ext, h)
    else pure (false, ext, h)

/-- `Drop for AxTaskExt`: the layout is rebuilt with alignment `0x10`. -/
def drop (d : TaskExtDef) (ext : AxTaskExt) (h : Heap) : Except Fault Heap :=
  if ext.ptr = 0 then .ok h
  else
    match Layout.fromSizeAlign d.size 0x10 with
    | none => .error layoutError
    | some layout => dealloc h ext.ptr layout

end AxTaskExt

/-! ## §2 The kernel stack and the task -/

/-- `TaskStack`: the block and the layout it was allocated with. -/
structure TaskStack where
  ptr : Nat
  layout : Layout
  deriving DecidableEq, Repr

/-- The panic of `NonNull::new(..).unwrap()` on null. -/
def unwrapNone : Fault := .panic "called Option::unwrap() on a None value"

namespace TaskStack

/-- `TaskStack::alloc(size)`. -/
def alloc (A : Allocator) (h : Heap) (size : Nat) : Except Fault (TaskStack × Heap) :=
  match Layout.fromSizeAlign size 16 with
  | none => .error layoutError
  | some layout => do
    let (ptr, h) ← Libc.alloc A h layout
    if ptr = 0 then .error unwrapNone else pure (⟨ptr, layout⟩, h)

/-- `Drop for TaskStack`. -/
def drop (s : TaskStack) (h : Heap) : Except Fault Heap := dealloc h s.ptr s.layout

end TaskStack

/-- The fields of `TaskInner` that own heap blocks: `kstack` and `task_ext`. -/
structure TaskMem where
  kstack : Option TaskStack
  taskExt : AxTaskExt
  deriving DecidableEq, Repr

namespace TaskMem

/-- `TaskInner::new(entry, name, stack_size)`, its allocations. -/
def new (A : Allocator) (h : Heap) (stackSize : Nat) : Except Fault (TaskMem × Heap) := do
  let (kstack, h) ← TaskStack.alloc A h (alignUp4k stackSize)
  pure (⟨some kstack, AxTaskExt.empty⟩, h)

/-- `init_task_ext(data)`: whether it returned `Some`, the task and the heap. -/
def initTaskExt (A : Allocator) (d : TaskExtDef) (dataSize dataAlign : Nat) (t : TaskMem)
    (h : Heap) : Except Fault (Bool × TaskMem × Heap) :=
  if t.taskExt.isEmpty then
    (t.taskExt.write A d dataSize dataAlign h).map fun r => (r.1, { t with taskExt := r.2.1 }, r.2.2)
  else .ok (false, t, h)

/-- Dropping a `TaskInner`: `kstack`, then `task_ext`, in the order of the fields. -/
def drop (d : TaskExtDef) (t : TaskMem) (h : Heap) : Except Fault Heap := do
  let h ← match t.kstack with
    | none => pure h
    | some s => s.drop h
  t.taskExt.drop d h

end TaskMem

/-- A task's life as the heap sees it: `TaskInner::new`, `init_task_ext` with a value of
    the registered type, and the drop in `gc_entry` once it has exited. -/
def taskLife (A : Allocator) (d : TaskExtDef) (h : Heap) (stackSize : Nat) : Except Fault Heap := do
  let (t, h) ← TaskMem.new A h stackSize
  let (_, t, h) ← t.initTaskExt A d d.size d.align h
  t.drop d h

/-! ## §3 The stack is freed as it was allocated -/

section Lemmas

variable {A : Allocator} {h : Heap}

namespace TaskStack

/-- The stack `alloc` returns is the allocator's block, of positive size, live with the
    layout the stack keeps. -/
theorem eq_of_alloc {size : Nat} {s : TaskStack} {h' : Heap}
    (ha : TaskStack.alloc A h size = .ok (s, h')) :
    0 < s.layout.size ∧ s.ptr = A.alloc h s.layout ∧ h' = ⟨h.mem, (s.ptr, s.layout) :: h.live⟩ := by
  unfold TaskStack.alloc at ha
  split at ha
  · cases ha
  · rename_i layout _
    rcases hr : Libc.alloc A h layout with e | ⟨ptr, h''⟩ <;> rw [hr] at ha
    · cases ha
    · simp only [Bind.bind, Except.bind] at ha
      split_ifs at ha with hp
      cases ha
      exact Libc.eq_of_alloc hr hp

/-- For every stack size, dropping the stack frees the block with the layout it was
    allocated with, and gives the heap back. -/
theorem drop_alloc {size : Nat} {s : TaskStack} {h' : Heap}
    (ha : TaskStack.alloc A h size = .ok (s, h')) : s.drop h' = .ok h := by
  obtain ⟨-, -, rfl⟩ := eq_of_alloc ha
  exact dealloc_alloc s.ptr

end TaskStack

/-! ## §4 The extension is not -/

namespace AxTaskExt

variable {d : TaskExtDef}

/-- What `uninited` can do: return null and change nothing, or return the allocator's block
    of the registered layout, now live. -/
theorem uninited_cases {ext : AxTaskExt} {h' : Heap} (hu : uninited A d h = .ok (ext, h')) :
    (ext.ptr = 0 ∧ h' = h) ∨
      (0 < d.size ∧ d.size ≤ isizeMax - (d.align - 1) ∧ ext.ptr = A.alloc h ⟨d.size, d.align⟩ ∧
        ext.ptr ≠ 0 ∧ h' = ⟨h.mem, (ext.ptr, ⟨d.size, d.align⟩) :: h.live⟩) := by
  unfold uninited at hu
  split_ifs at hu with hs
  · cases hu
    exact .inl ⟨rfl, rfl⟩
  · split at hu
    · cases hu
    · rename_i l hl
      obtain ⟨⟨-, -, hfit⟩, rfl⟩ := fromSizeAlign_eq_some_iff.mp hl
      rcases hr : alloc A h ⟨d.size, d.align⟩ with e | ⟨p, h''⟩ <;> rw [hr] at hu
      · cases hu
      · cases hu
        by_cases hp : p = 0
        · subst hp
          exact .inl ⟨rfl, eq_of_alloc_zero hr⟩
        · obtain ⟨hpos, hptr, rfl⟩ := eq_of_alloc hr hp
          exact .inr ⟨hpos, hfit, hptr, hp, rfl⟩

/-- A non-null extension is the allocator's block of the registered layout, of positive
    size, now live. -/
theorem uninited_of_ne_zero {ext : AxTaskExt} {h' : Heap} (hu : uninited A d h = .ok (ext, h'))
    (hp : ext.ptr ≠ 0) :
    0 < d.size ∧ d.size ≤ isizeMax - (d.align - 1) ∧ ext.ptr = A.alloc h ⟨d.size, d.align⟩ ∧
      h' = ⟨h.mem, (ext.ptr, ⟨d.size, d.align⟩) :: h.live⟩ := by
  rcases uninited_cases hu with ⟨hp0, -⟩ | ⟨hs, hfit, hptr, -, hh⟩
  · exact absurd hp0 hp
  · exact ⟨hs, hfit, hptr, hh⟩

/-- No block live before `uninited` starts where the extension block does. -/
theorem not_mem_live_of_uninited {ext : AxTaskExt} {h' : Heap}
    (hu : uninited A d h = .ok (ext, h')) (hp : ext.ptr ≠ 0) {l : Layout} (hs : 0 < l.size) :
    (ext.ptr, l) ∉ h.live := by
  obtain ⟨hpos, -, hptr, -⟩ := uninited_of_ne_zero hu hp
  rw [hptr]
  exact not_mem_live_of_alloc hpos (hptr ▸ hp) hs

/-- With alignment `16`, the layout `drop` rebuilds is the block's, and the block is freed. -/
theorem drop_of_live (h16 : d.align = 0x10) {ext : AxTaskExt} (hp : ext.ptr ≠ 0)
    (hsize : d.size ≤ isizeMax - 15) (mem : Nat → UInt8) (live : List (Nat × Layout)) :
    ext.drop d ⟨mem, (ext.ptr, ⟨d.size, d.align⟩) :: live⟩ = .ok ⟨mem, live⟩ := by
  rw [drop, if_neg hp, fromSizeAlign_of_valid (by decide) (by decide) hsize, h16]
  exact dealloc_alloc (h := ⟨mem, live⟩) ext.ptr

/-- With any other alignment, the layout `drop` rebuilds is not the block's, and the
    `dealloc` is undefined. -/
theorem drop_of_align_ne (hne : d.align ≠ 0x10) {ext : AxTaskExt} (hp : ext.ptr ≠ 0)
    (hsize : d.size ≤ isizeMax - 15) (mem : Nat → UInt8) {live : List (Nat × Layout)}
    (hfresh : (ext.ptr, (⟨d.size, 0x10⟩ : Layout)) ∉ live) :
    ext.drop d ⟨mem, (ext.ptr, ⟨d.size, d.align⟩) :: live⟩ = .error .undefined := by
  rw [drop, if_neg hp, fromSizeAlign_of_valid (by decide) (by decide) hsize]
  refine dealloc_of_not_mem fun hmem => ?_
  rcases List.mem_cons.mp hmem with heq | hmem
  · -- the same block, but not the same alignment
    simp only [Prod.mk.injEq, Layout.mk.injEq, true_and] at heq
    exact hne heq.symm
  · exact hfresh hmem

/-- With alignment `16`, dropping the extension `uninited` allocated gives the heap back. -/
theorem drop_uninited (h16 : d.align = 0x10) {ext : AxTaskExt} {h' : Heap}
    (hu : uninited A d h = .ok (ext, h')) : ext.drop d h' = .ok h := by
  rcases uninited_cases hu with ⟨hp, rfl⟩ | ⟨-, hfit, -, hp, rfl⟩
  · rw [drop, if_pos hp]
  · rw [h16] at hfit
    exact drop_of_live h16 hp hfit h.mem h.live

/-- With any other alignment, dropping the extension `uninited` allocated is undefined. -/
theorem drop_uninited_of_align_ne (hne : d.align ≠ 0x10) (hsize : d.size ≤ isizeMax - 15)
    {ext : AxTaskExt} {h' : Heap} (hu : uninited A d h = .ok (ext, h')) (hp : ext.ptr ≠ 0) :
    ext.drop d h' = .error .undefined := by
  obtain ⟨hpos, -, -, rfl⟩ := uninited_of_ne_zero hu hp
  exact drop_of_align_ne hne hp hsize h.mem (not_mem_live_of_uninited hu hp
    (show 0 < (⟨d.size, 0x10⟩ : Layout).size from hpos))

end AxTaskExt

/-! ## §5 A whole task -/

variable {d : TaskExtDef} {n : Nat} {s : TaskStack} {h₁ h₂ : Heap} {ext : AxTaskExt}

/-- Once the allocations of `TaskInner::new` and `init_task_ext` succeed, a task's life is
    the drop of the task they built. -/
theorem taskLife_eq (hstack : TaskStack.alloc A h (alignUp4k n) = .ok (s, h₁))
    (hext : AxTaskExt.uninited A d h₁ = .ok (ext, h₂)) (hp : 0 < d.size → ext.ptr ≠ 0) :
    taskLife A d h n = TaskMem.drop d ⟨some s, ext⟩ h₂ := by
  -- `init_task_ext` finds the extension empty and writes it, allocating its block
  have hwrite : AxTaskExt.empty.write A d d.size d.align h₁ = .ok (0 < d.size, ext, h₂) := by
    by_cases hs : 0 < d.size
    · simp [AxTaskExt.write, AxTaskExt.empty, hext, hs, hp hs, Bind.bind, Except.bind, pure,
        Except.pure]
    · simp [AxTaskExt.write, AxTaskExt.empty, hext, hs, Bind.bind, Except.bind, pure, Except.pure]
  simp only [taskLife, TaskMem.new, hstack, TaskMem.initTaskExt, Bind.bind, Except.bind, pure,
    Except.pure]
  rw [if_pos (show AxTaskExt.empty.isEmpty = true from rfl), hwrite]
  rfl

/-- The stack is freed first; the extension block allocated after it stays live. -/
theorem drop_stack_of_ext (hstack : TaskStack.alloc A h (alignUp4k n) = .ok (s, h₁))
    (hext : AxTaskExt.uninited A d h₁ = .ok (ext, h₂)) (hp : ext.ptr ≠ 0) :
    s.drop h₂ = .ok ⟨h.mem, (ext.ptr, ⟨d.size, d.align⟩) :: h.live⟩ := by
  obtain ⟨hslayout, -, rfl⟩ := TaskStack.eq_of_alloc hstack
  obtain ⟨-, -, -, rfl⟩ := AxTaskExt.uninited_of_ne_zero hext hp
  -- the extension block is fresh, so it does not start where the stack does
  have hfresh := AxTaskExt.not_mem_live_of_uninited hext hp hslayout
  have hne : (ext.ptr, (⟨d.size, d.align⟩ : Layout)) ≠ (s.ptr, s.layout) := by
    intro heq
    rw [Prod.mk.injEq] at heq
    exact hfresh (heq.1 ▸ List.mem_cons_self)
  rw [TaskStack.drop, dealloc_cons_of_ne hne, dealloc_alloc]
  rfl

/-- With alignment `16`, a task created, given its extension and collected gives back
    exactly the blocks it took. -/
theorem taskLife_of_align_eq (h16 : d.align = 0x10)
    (hstack : TaskStack.alloc A h (alignUp4k n) = .ok (s, h₁))
    (hext : AxTaskExt.uninited A d h₁ = .ok (ext, h₂)) (hp : 0 < d.size → ext.ptr ≠ 0) :
    taskLife A d h n = .ok h := by
  rw [taskLife_eq hstack hext hp]
  rcases AxTaskExt.uninited_cases hext with ⟨hp0, rfl⟩ | ⟨-, hfit, -, hp0, -⟩
  · -- no extension block: the stack alone is freed
    simp only [TaskMem.drop, TaskStack.drop_alloc hstack, Bind.bind, Except.bind]
    rw [AxTaskExt.drop, if_pos hp0]
  · simp only [TaskMem.drop, drop_stack_of_ext hstack hext hp0, Bind.bind, Except.bind]
    rw [h16] at hfit
    exact AxTaskExt.drop_of_live h16 hp0 hfit h.mem h.live

/-- With any other alignment, collecting a task that holds an extension block is undefined. -/
theorem taskLife_of_align_ne (hne : d.align ≠ 0x10) (hsize : d.size ≤ isizeMax - 15)
    (hstack : TaskStack.alloc A h (alignUp4k n) = .ok (s, h₁))
    (hext : AxTaskExt.uninited A d h₁ = .ok (ext, h₂)) (hp : ext.ptr ≠ 0) :
    taskLife A d h n = .error .undefined := by
  rw [taskLife_eq hstack hext fun _ => hp]
  simp only [TaskMem.drop, drop_stack_of_ext hstack hext hp, Bind.bind, Except.bind]
  obtain ⟨-, -, rfl⟩ := TaskStack.eq_of_alloc hstack
  have hfresh := AxTaskExt.not_mem_live_of_uninited hext hp
    (show 0 < (⟨d.size, 0x10⟩ : Layout).size from (AxTaskExt.uninited_of_ne_zero hext hp).1)
  exact AxTaskExt.drop_of_align_ne hne hp hsize h.mem fun hmem =>
    hfresh (List.mem_cons_of_mem _ hmem)

end Lemmas

/-- The extension of the `def_task_ext!` documentation, a struct of one `usize`: eight bytes
    aligned to eight. -/
def procExt : TaskExtDef := ⟨8, 8⟩

/-- The extension block of an 8-aligned extension is allocated with alignment `8` and
    freed with alignment `16`, which the allocator leaves undefined; with alignment `16`
    the task's life ends with both blocks freed. -/
theorem task_ext_drop_layout_mismatch :
    taskLife (bumpAllocator 0x1000) procExt ⟨fun _ => 0, []⟩ 0x1000 = .error .undefined ∧
      taskLife (bumpAllocator 0x1000) ⟨16, 16⟩ ⟨fun _ => 0, []⟩ 0x1000 = .ok ⟨fun _ => 0, []⟩ := by
  have hstack : TaskStack.alloc (bumpAllocator 0x1000) ⟨fun _ => 0, []⟩ (alignUp4k 0x1000) =
      .ok (⟨0x1000, ⟨0x1000, 16⟩⟩, ⟨fun _ => 0, [(0x1000, ⟨0x1000, 16⟩)]⟩) := rfl
  have hproc : AxTaskExt.uninited (bumpAllocator 0x1000) procExt
      ⟨fun _ => 0, [(0x1000, ⟨0x1000, 16⟩)]⟩ =
      .ok (⟨0x2000⟩, ⟨fun _ => 0, [(0x2000, ⟨8, 8⟩), (0x1000, ⟨0x1000, 16⟩)]⟩) := rfl
  have hwide : AxTaskExt.uninited (bumpAllocator 0x1000) ⟨16, 16⟩
      ⟨fun _ => 0, [(0x1000, ⟨0x1000, 16⟩)]⟩ =
      .ok (⟨0x2000⟩, ⟨fun _ => 0, [(0x2000, ⟨16, 16⟩), (0x1000, ⟨0x1000, 16⟩)]⟩) := rfl
  exact ⟨taskLife_of_align_ne (by decide) (by decide) hstack hproc (by decide),
    taskLife_of_align_eq rfl hstack hwide fun _ => by decide⟩

end ArceOS.Task
