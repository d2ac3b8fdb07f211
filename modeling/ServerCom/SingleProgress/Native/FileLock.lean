import Mathlib.Logic.Function.Basic

/-!
# Starting a single instance

`CheckSingle` locks a file named after the program: `file_lock::lock` opens it, asks with
`F_TEST` whether another process holds it, and takes it with `F_LOCK`. The processes that call
it take turns between these system calls in any order. The lock belongs to a process, `F_LOCK`
waits while another process holds it, and the end of its holder releases it.
-/

namespace ServerCom.SingleProgress

/-- Where a process is in `CheckSingle`. -/
inductive Progress where
  /-- `CheckSingle` has not been called. -/
  | start
  /-- `open` has returned `m_fd`. -/
  | opened
  /-- `F_TEST` has found no other holder. -/
  | tested
  /-- The process waits in `F_LOCK`. -/
  | waiting
  /-- `CheckSingle` has returned. -/
  | passed
  /-- The process has ended. -/
  | exited
  deriving DecidableEq, Repr

/-- The processes, and the holder of the lock. -/
structure Processes (P : Type*) where
  /-- Where each process is. -/
  progress : P → Progress
  /-- The process that holds the lock. -/
  holder : Option P

/-- A system call of a process. -/
inductive SysCall (P : Type*) where
  /-- `open`. -/
  | openFile (p : P) (ok : Bool)
  /-- `lockf` with `F_TEST`. -/
  | test (p : P)
  /-- `lockf` with `F_LOCK`, or its return in a process that waits. -/
  | lock (p : P)
  /-- The process ends. -/
  | exit (p : P)
  deriving DecidableEq, Repr

namespace Processes

variable {P : Type*} [DecidableEq P]

/-- No process has called `CheckSingle`. -/
def start : Processes P := ⟨fun _ => .start, none⟩

/-- A process goes on. -/
def move (s : Processes P) (p : P) (a : Progress) : Processes P :=
  { s with progress := Function.update s.progress p a }

/-- Another process holds the lock. -/
def HeldByOther (s : Processes P) (p : P) : Prop := s.holder ≠ none ∧ s.holder ≠ some p

instance (s : Processes P) (p : P) : Decidable (s.HeldByOther p) :=
  inferInstanceAs (Decidable (_ ∧ _))

/-- A process ends, and gives back its lock. -/
def exit (s : Processes P) (p : P) : Processes P :=
  { s.move p .exited with holder := if s.holder = some p then none else s.holder }

/-- A process gets the lock. -/
def acquire (s : Processes P) (p : P) : Processes P :=
  { s.move p .passed with holder := some p }

/-- The processes behind a system call. Where `lock` returns `false`, `CheckSingle` ends the
process; a call that a process does not make where it is changes nothing. -/
def step (s : Processes P) : SysCall P → Processes P
  | .openFile p ok =>
    if s.progress p = .start then if ok then s.move p .opened else s.exit p else s
  | .test p =>
    if s.progress p = .opened then if s.HeldByOther p then s.exit p else s.move p .tested else s
  | .lock p =>
    if s.progress p = .tested ∨ s.progress p = .waiting then
      if s.HeldByOther p then s.move p .waiting else s.acquire p
    else s
  | .exit p => s.exit p

variable {s : Processes P} {p q : P} {a : Progress}

@[simp] theorem move_holder : (s.move p a).holder = s.holder := rfl

@[simp] theorem move_self : (s.move p a).progress p = a := Function.update_self ..

theorem move_of_ne (h : q ≠ p) : (s.move p a).progress q = s.progress q :=
  Function.update_of_ne h ..

@[simp] theorem exit_self : (s.exit p).progress p = .exited := Function.update_self ..

theorem exit_of_ne (h : q ≠ p) : (s.exit p).progress q = s.progress q :=
  Function.update_of_ne h ..

@[simp] theorem acquire_holder : (s.acquire p).holder = some p := rfl

@[simp] theorem acquire_self : (s.acquire p).progress p = .passed := Function.update_self ..

theorem acquire_of_ne (h : q ≠ p) : (s.acquire p).progress q = s.progress q :=
  Function.update_of_ne h ..

end Processes

end ServerCom.SingleProgress
