import Mathlib.Data.List.Basic

/-!
# The logs of Daytona sessions

The logs of a process are polled, and what is new in them is written to a pipe.  Where the two
outputs do not come apart, their combination stands in for standard output.
-/

namespace Exo.Daytona

open List

inductive CommandLogs where
  | structured (output stdout stderr : List UInt8)
  | raw (output : List UInt8)

def CommandLogs.stdout : CommandLogs → List UInt8
  | .structured output stdout _ => if stdout.isEmpty then output else stdout
  | .raw output => output

/-- What is written to a pipe after `offset` bytes of an output, and the offset after it. -/
def writeLogUpdate (offset : ℕ) (output : List UInt8) : List UInt8 × ℕ :=
  (output.drop (if output.length < offset then 0 else offset), output.length)

/-- What the rounds of `poll_daytona_process` write to a pipe. -/
def poll (offset : ℕ) : List (List UInt8) → List UInt8
  | [] => []
  | output :: later => (writeLogUpdate offset output).1 ++ poll output.length later

section
variable {first : List UInt8} {later : List (List UInt8)}

/-- Outputs that grow are written as the last of them. -/
theorem poll_append (hgrowing : (first :: later).IsChain (· <+: ·)) (rest : List (List UInt8)) :
    first ++ poll first.length (later ++ rest) =
      (first :: later).getLast (cons_ne_nil _ _) ++
        poll ((first :: later).getLast (cons_ne_nil _ _)).length rest := by
  induction later generalizing first with
  | nil => rfl
  | cons next later ih =>
    obtain ⟨⟨more, rfl⟩, hgrowing⟩ := isChain_cons_cons.1 hgrowing
    rw [getLast_cons (cons_ne_nil _ _), ← ih hgrowing]
    simp [poll, writeLogUpdate, Nat.not_lt.2 (Nat.le_add_right _ _)]

/-- Where `output` stands in for an empty `stdout`, all of `stdout` and nothing else is written if
and only if it goes on from that output. -/
theorem poll_stdout_iff {quiet loud : List CommandLogs} {output stdout : CommandLogs}
    (hquiet : ((output :: quiet).map (·.stdout)).IsChain (· <+: ·))
    (hloud : ((stdout :: loud).map (·.stdout)).IsChain (· <+: ·)) :
    poll 0 ((output :: quiet).map (·.stdout) ++ (stdout :: loud).map (·.stdout)) =
        ((stdout :: loud).map (·.stdout)).getLast (cons_ne_nil _ _) ↔
      ((output :: quiet).map (·.stdout)).getLast (cons_ne_nil _ _) <+: stdout.stdout := by
  have hwritten := poll_append hquiet ((stdout :: loud).map (·.stdout))
  have hrest := poll_append hloud []
  simp only [map_cons, append_nil, poll, writeLogUpdate] at hwritten hrest
  simp only [map_cons, cons_append, poll, writeLogUpdate, Nat.not_lt_zero, if_false, drop_zero]
  rw [hwritten, ← hrest, prefix_iff_eq_append]
  generalize (output.stdout :: quiet.map (·.stdout)).getLast (cons_ne_nil _ _) = before
  split
  case isTrue hshort =>
    constructor
    all_goals
      intro heq
      replace heq := congrArg length heq
      simp only [length_append, length_drop] at heq
      omega
  case isFalse =>
    rw [← append_assoc, append_left_inj]

/-- Standard error that is polled first is written for output. -/
theorem poll_stdout_stderr : poll 0 ([CommandLogs.structured [1] [] [1],
    .structured [1, 2] [2] [1]].map (·.stdout)) ≠ [2] := fun heq ↦ by
  have hprefix := (@poll_stdout_iff [] [] (.structured [1] [] [1]) (.structured [1, 2] [2] [1])
    (.singleton _) (.singleton _)).1 heq
  revert hprefix
  decide

end

end Exo.Daytona
