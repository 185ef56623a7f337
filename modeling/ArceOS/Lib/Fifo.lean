import ArceOS.Lib.Transition

/-!
# Bounded FIFO Queues

The abstract behaviour of a bounded first-in first-out queue, as a labelled
transition system over the list of queued values. A step either appends a value
(when fewer than `cap` are queued) or removes the oldest one and reports it.

The history lemma `boundedFifo_run` states what the queue is for: along every
run, the values taken out followed by the values still queued are exactly the
values put in, in order.
-/

namespace ArceOS.Lib

/-- A queue operation: `enq a` puts `a` in, `deq a` took `a` out. -/
inductive FifoOp (α : Type*) where
  | enq (a : α)
  | deq (a : α)
  deriving DecidableEq, Repr

namespace FifoOp

variable {α : Type*}

/-- The values put in by a sequence of operations, in order. -/
def enqueued : List (FifoOp α) → List α :=
  List.filterMap fun
    | .enq a => some a
    | .deq _ => none

/-- The values taken out by a sequence of operations, in order. -/
def dequeued : List (FifoOp α) → List α :=
  List.filterMap fun
    | .enq _ => none
    | .deq a => some a

@[simp] theorem enqueued_nil : enqueued ([] : List (FifoOp α)) = [] := rfl
@[simp] theorem dequeued_nil : dequeued ([] : List (FifoOp α)) = [] := rfl

@[simp] theorem enqueued_snoc_enq (ls : List (FifoOp α)) (a : α) :
    enqueued (ls ++ [.enq a]) = enqueued ls ++ [a] := by
  simp [enqueued]

@[simp] theorem enqueued_snoc_deq (ls : List (FifoOp α)) (a : α) :
    enqueued (ls ++ [.deq a]) = enqueued ls := by
  simp [enqueued]

@[simp] theorem dequeued_snoc_enq (ls : List (FifoOp α)) (a : α) :
    dequeued (ls ++ [.enq a]) = dequeued ls := by
  simp [dequeued]

@[simp] theorem dequeued_snoc_deq (ls : List (FifoOp α)) (a : α) :
    dequeued (ls ++ [.deq a]) = dequeued ls ++ [a] := by
  simp [dequeued]

end FifoOp

open FifoOp

/-- The bounded FIFO queue of capacity `cap`, starting empty. -/
def boundedFifo (α : Type*) (cap : Nat) : LTS (List α) (FifoOp α) where
  init q := q = []
  step q op q' :=
    match op with
    | .enq a => q.length < cap ∧ q' = q ++ [a]
    | .deq a => q = a :: q'

variable {α : Type*} {cap : Nat}

/-- **FIFO order**: along every run from the empty queue, the values taken out
    followed by the values still queued are the values put in, and never more than
    `cap` values are queued. -/
theorem boundedFifo_run {ls : List (FifoOp α)} {q : List α}
    (h : (boundedFifo α cap).Run [] ls q) :
    dequeued ls ++ q = enqueued ls ∧ q.length ≤ cap := by
  induction h with
  | nil => simp
  | @snoc q₁ q₂ ls op _ hstep ih =>
    obtain ⟨horder, hcap⟩ := ih
    cases op with
    | enq a =>
      -- an append keeps the order and stays below the capacity
      obtain ⟨hlt, rfl⟩ := hstep
      simp only [enqueued_snoc_enq, dequeued_snoc_enq, List.length_append,
        List.length_singleton]
      exact ⟨by rw [← horder, List.append_assoc], by omega⟩
    | deq a =>
      -- removing the oldest value moves it from the queue to the output
      subst hstep
      simp only [enqueued_snoc_deq, dequeued_snoc_deq]
      refine ⟨by rw [← horder]; simp, ?_⟩
      simp only [List.length_cons] at hcap
      omega

end ArceOS.Lib
