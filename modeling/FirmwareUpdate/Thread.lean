/-
A state carried along a list.  Block chaining and keystreams are both of this
form, and neither sees how its input was cut into pieces.
-/
namespace FirmwareUpdate

variable {σ α β : Type}

/-- `thread` with the results so far in `done`, the newest first. -/
def threadOnto (step : σ → α → β × σ) (done : List β) (s : σ) : List α → List β × σ
  | [] => (done.reverse, s)
  | a :: rest => threadOnto step ((step s a).1 :: done) (step s a).2 rest

/-- Carry a state along a list: each element gives a result and the next state. -/
def thread (step : σ → α → β × σ) (s : σ) (xs : List α) : List β × σ :=
  threadOnto step [] s xs

theorem threadOnto_eq (step : σ → α → β × σ) (done : List β) (s : σ) (xs : List α) :
    threadOnto step done s xs =
      (done.reverse ++ (thread step s xs).1, (thread step s xs).2) := by
  induction xs generalizing done s with
  | nil => simp [threadOnto, thread]
  | cons x xs ih =>
      rw [thread, threadOnto, threadOnto, ih, ih [(step s x).1]]
      simp

@[simp] theorem thread_nil (step : σ → α → β × σ) (s : σ) :
    thread step s [] = ([], s) := rfl

@[simp] theorem thread_cons (step : σ → α → β × σ) (s : σ) (x : α) (xs : List α) :
    thread step s (x :: xs) =
      ((step s x).1 :: (thread step (step s x).2 xs).1, (thread step (step s x).2 xs).2) := by
  rw [thread, threadOnto, threadOnto_eq]
  simp

/-- The state behind the first part is the state before the second. -/
theorem thread_append (step : σ → α → β × σ) (s : σ) (xs ys : List α) :
    thread step s (xs ++ ys) =
      ((thread step s xs).1 ++ (thread step (thread step s xs).2 ys).1,
        (thread step (thread step s xs).2 ys).2) := by
  induction xs generalizing s with
  | nil => simp
  | cons x xs ih => simp [ih]

@[simp] theorem length_thread (step : σ → α → β × σ) (s : σ) (xs : List α) :
    (thread step s xs).1.length = xs.length := by
  induction xs generalizing s with
  | nil => simp
  | cons x xs ih => simp [ih]

end FirmwareUpdate
