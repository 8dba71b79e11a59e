import SessionHost.Duration

/-!
# Polling for a session file

A session file is looked for at fixed intervals.  The number of polls is computed in words of
64 bits, the multiple of the interval that a warning names in 32 bits.

Main definitions:

- `PollPlan`: the interval and the time for the whole wait.
- `PollPlan.attempts`, `PollPlan.warnAt`: the number of polls, and the one that warns.
- `PollPlan.elapsed`: the time that the warning names.
-/

namespace SessionHost

/-- How long to wait for a session file, and how often to look. -/
structure PollPlan where
  interval : Duration
  timeout : Duration
deriving DecidableEq

namespace PollPlan

/-- A number cut to 64 bits. -/
def word64 (n : Nat) : Nat := n % Nat.pow 2 64

/-- A number cut to 32 bits. -/
def word32 (n : Nat) : Nat := n % Nat.pow 2 32

/-- The number of polls: the intervals of whole milliseconds in the time, and at least one
before the number is cut to a word. -/
def attempts (p : PollPlan) : Nat :=
  word64 (max 1 (p.timeout.millis / max 1 p.interval.millis))

/-- The poll that gives the warning: three quarters of all, and at least the first. -/
def warnAt (p : PollPlan) : Nat := max 1 (word64 (p.attempts * 3) / 4)

/-- The waiting time that a warning at an attempt names. -/
def elapsed (p : PollPlan) (attempt : Nat) : Duration := p.interval.times (word32 attempt)

end PollPlan

end SessionHost
