import StencilTiling.Text.Integer

/-! Signals by name and number. -/

namespace StencilTiling.Shell.Signal

/-- Names in the order of their numbers; the first stands for the end of a job. -/
def names : List String :=
  ["EXIT", "HUP", "INT", "QUIT", "ILL", "TRAP", "ABRT", "BUS", "FPE", "KILL", "USR1", "SEGV", "USR2", "PIPE", "ALRM",
    "TERM", "STKFLT", "CHLD", "CONT", "STOP", "TSTP", "TTIN", "TTOU", "URG", "XCPU", "XFSZ", "VTALRM", "PROF", "WINCH",
    "POLL", "PWR", "SYS"]

/-- What is said of a program that was ended by a signal. -/
def notes : List (Nat × String) :=
  [(1, "Hangup"), (3, "Quit"), (4, "Illegal instruction"), (5, "Trace/breakpoint trap"), (6, "Aborted"),
    (7, "Bus error"), (8, "Floating point exception"), (9, "Killed"), (10, "User defined signal 1"),
    (11, "Segmentation fault"), (12, "User defined signal 2"), (14, "Alarm clock"), (15, "Terminated"),
    (16, "Stack fault"), (24, "CPU time limit exceeded"), (25, "File size limit exceeded"),
    (26, "Virtual timer expired"), (27, "Profiling timer expired"), (29, "I/O possible"), (30, "Power failure"),
    (31, "Bad system call")]

/-- One more than the greatest number. -/
def count : Nat := 65

/-- The number of a signal that is written as a number or a name. -/
def number? (s : String) : Option Nat :=
  match Text.readDigits? s.toList with
  | some n => if n < count then some n else none
  | none => names.idxOf? (s.map Char.toUpper)

/-- Signals that leave a job alone unless it asks for them. -/
def isIdle (n : Nat) : Bool := [0, 17, 18, 19, 20, 21, 22, 23, 28].contains n

end StencilTiling.Shell.Signal
