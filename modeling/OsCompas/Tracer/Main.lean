import OsCompas.Tracer.Report

/-!
# The figure and the command line

`visualize_trace_data`, `trace_visualizer.py:12–75`, and what `main`,
`syscall_tracer.py:224–253`, does with a trace file. Every reachable state draws the pie
over all calls and never the timing panel, and a trace written by `strace -f -o` gives the
no-data report.
-/

namespace OsCompas.Tracer

open OsCompas.Python

/-- The panels of the 2×2 figure, `trace_visualizer.py:29–66`; a panel the code leaves
empty is `none`. -/
structure Figure where
  /-- The bar chart of `dict(most_common(10))`. -/
  topSyscalls : List (String × Nat)
  /-- The pie of `category_data`, drawn when it is not empty. -/
  categories : Option (Dict Nat)
  /-- The bar chart of `dict(error_stats.most_common(8))`, drawn when there are errors. -/
  errors : Option (List (String × Nat))
  /-- The rows of the timing panel, drawn when `timing_data` is not empty. -/
  timing : Option (List (String × ℚ))

/-- `visualize_trace_data(tracer)`; `none` for its "no data" message. -/
def visualizeTraceData (t : SyscallTracer) : Option Figure :=
  if t.syscallStats.entries = [] then none
  else
    let categoryData := categoryData t.syscallStats
    some ⟨t.syscallStats.mostCommon (some 10),
      if categoryData.entries = [] then none else some categoryData,
      if t.errorStats.entries = [] then none else some (t.errorStats.mostCommon (some 8)),
      if t.timingData = [] then none else some t.timingData⟩

variable (U : UnicodeClasses) (toFloat : String → Option ℚ)

/-- What `main` does with a trace file, `syscall_tracer.py:240–253`: the file named by
`--file`, or the one `trace_program` wrote, as its lines, `none` when it does not exist or
tracing failed. After `parse_trace_file` come the report and, with `--visualize`, the
figure; an exception of `generate_report` ends the run before the figure. -/
def analyzeTrace (file : Option (List String)) (report now : String) (visualize : Bool) :
    Except PyError (Option (ReportOutput × Option (Option Figure))) :=
  match parseTraceFile U toFloat .init file with
  | (true, tracer) => do
    let out ← generateReport tracer report now
    pure (some (out, if visualize then some (visualizeTraceData tracer) else none))
  | (false, _) => pure none

/-! ### The figure of a reachable state -/

/-- Lines that all fail to match leave every state as it was. -/
theorem foldl_parseTraceLine_of_none {L : List String} (hL : ∀ l ∈ L, matchTraceLine U l = none)
    (t : SyscallTracer) : L.foldl (parseTraceLine U toFloat) t = t := by
  induction L generalizing t with
  | nil => rfl
  | cons l L ih =>
    rw [List.foldl_cons, parseTraceLine_of_none U toFloat (hL l (List.mem_cons_self l L))]
    exact ih (fun l' hl' => hL l' (List.mem_cons_of_mem l hl')) t

/-- `main` on a trace whose every line starts with a pid and a blank, as `strace -f -o`
writes it for the program `trace_program` starts: no line is counted, and `main` prints
the "no data" message of `generate_report` and, with `--visualize`, that of
`visualize_trace_data`. -/
theorem analyzeTrace_pid_prefixed {L : List String}
    (hL : ∀ l ∈ L, ∃ pid rest, (∀ c ∈ pid, U.isDigit c = true) ∧ l.toList = pid ++ ' ' :: rest)
    (report now : String) (visualize : Bool) :
    analyzeTrace U toFloat (some L) report now visualize =
      .ok (some (.noData, if visualize then some none else none)) := by
  have hnone : ∀ l ∈ L, matchTraceLine U l = none := fun l hl => by
    obtain ⟨pid, rest, hpid, hline⟩ := hL l hl
    exact matchTraceLine_pid_prefixed U hpid hline
  simp only [analyzeTrace, parseTraceFile, foldl_parseTraceLine_of_none U toFloat hnone]
  rfl

/-- A `read` line written by `strace -f -o` gives the no-data report and the no-data figure. -/
theorem analyzeTrace_pid_prefixed_read :
    (∀ l ∈ ["2001  12:00:00.000001 read(3) = 0\n"], ∃ pid rest,
        (∀ c ∈ pid, UnicodeClasses.ascii.isDigit c = true) ∧ l.toList = pid ++ ' ' :: rest) ∧
      analyzeTrace .ascii (fun _ => none) (some ["2001  12:00:00.000001 read(3) = 0\n"]) "text"
          "" true =
        .ok (some (.noData, some none)) :=
  have hL : ∀ l ∈ ["2001  12:00:00.000001 read(3) = 0\n"], ∃ pid rest,
      (∀ c ∈ pid, UnicodeClasses.ascii.isDigit c = true) ∧ l.toList = pid ++ ' ' :: rest := by
    simp only [List.mem_singleton, forall_eq]
    exact ⟨"2001".toList, " 12:00:00.000001 read(3) = 0\n".toList, by decide, rfl⟩
  ⟨hL, analyzeTrace_pid_prefixed .ascii (fun _ => none) hL "text" "" true⟩

end OsCompas.Tracer
