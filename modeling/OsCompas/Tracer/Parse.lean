import Mathlib.Data.Rat.Defs
import OsCompas.Python.Dict
import OsCompas.Tracer.Pattern

/-!
# Parsing a trace into the tracer's counters

`SyscallTracer.__init__`, `parse_trace_file` and `_parse_trace_line`,
`syscall_tracer.py:19–128`. A matching line counts one call and maybe one error, a line
that does not match changes nothing, and no line ever reaches `timing_data`.
-/

namespace OsCompas.Tracer

open OsCompas.Python

/-- The attributes of a `SyscallTracer` that parsing writes, `syscall_tracer.py:19–22`. -/
structure SyscallTracer where
  syscallStats : Dict Nat
  errorStats : Dict Nat
  timingData : List (String × ℚ)

/-- `SyscallTracer()`. -/
def SyscallTracer.init : SyscallTracer := ⟨.empty, .empty, []⟩

/-- `result and '-' in result and result != '-1'`, `syscall_tracer.py:127`. -/
def isErrorResult (result : String) : Bool :=
  result ≠ "" && '-' ∈ result.toList && result ≠ "-1"

variable (U : UnicodeClasses) (toFloat : String → Option ℚ)

/-- `_parse_trace_line`, `syscall_tracer.py:103–128`. `toFloat` is `float` on a string,
with `none` for its `ValueError`. -/
def parseTraceLine (t : SyscallTracer) (line : String) : SyscallTracer :=
  match matchTraceLine U line with
  | none => t
  | some g =>
    let t := { t with syscallStats := t.syscallStats.addTo g.syscall 1 }
    let t := match g.duration with
      | some d =>
        if d = "" then t
        else match toFloat d with
          | some x => { t with timingData := t.timingData ++ [(g.syscall, x)] }
          | none => t
      | none => t
    if isErrorResult g.result then { t with errorStats := t.errorStats.addTo g.syscall 1 } else t

/-- `parse_trace_file`, `syscall_tracer.py:83–101`, on the lines `readlines` returns, or
`none` when the path does not exist: the returned flag and the new state. -/
def parseTraceFile (t : SyscallTracer) (file : Option (List String)) : Bool × SyscallTracer :=
  match file with
  | none => (false, t)
  | some lines => (true, lines.foldl (parseTraceLine U toFloat) t)

/-- The states of a fresh tracer after any sequence of `parse_trace_file` and
`_parse_trace_line` calls. -/
inductive Reachable : SyscallTracer → Prop
  | init : Reachable .init
  | line {t : SyscallTracer} (line : String) :
      Reachable t → Reachable (parseTraceLine U toFloat t line)
  | file {t : SyscallTracer} (file : Option (List String)) :
      Reachable t → Reachable (parseTraceFile U toFloat t file).2

/-! ### One step -/

/-- What a matched line does: one more call, one more error if its result reads as one. -/
def countMatch (t : SyscallTracer) (g : TraceMatch) : SyscallTracer :=
  ⟨t.syscallStats.addTo g.syscall 1,
    if isErrorResult g.result then t.errorStats.addTo g.syscall 1 else t.errorStats,
    t.timingData⟩

/-- A line the pattern does not match leaves the tracer unchanged. -/
theorem parseTraceLine_of_none {t : SyscallTracer} {line : String}
    (h : matchTraceLine U line = none) : parseTraceLine U toFloat t line = t := by
  simp [parseTraceLine, h]

/-- A line the pattern matches is counted by its match. -/
theorem parseTraceLine_of_some {t : SyscallTracer} {line : String} {g : TraceMatch}
    (h : matchTraceLine U line = some g) :
    parseTraceLine U toFloat t line = countMatch t g := by
  have hd := matchTraceLine_duration U h
  simp only [parseTraceLine, h, hd, countMatch]
  split <;> rfl

/-- One line's effect, as a function of its match. -/
theorem parseTraceLine_eq (t : SyscallTracer) (line : String) :
    parseTraceLine U toFloat t line = ((matchTraceLine U line).map (countMatch t)).getD t := by
  cases h : matchTraceLine U line with
  | none => simp [parseTraceLine_of_none U toFloat h]
  | some g => simp [parseTraceLine_of_some U toFloat h]

/-- No line reaches `timing_data`. -/
theorem timingData_parseTraceLine (t : SyscallTracer) (line : String) :
    (parseTraceLine U toFloat t line).timingData = t.timingData := by
  rw [parseTraceLine_eq]
  cases matchTraceLine U line <;> rfl

/-! ### Lines in strace's format -/

/-- A line in strace's format: the pattern reads back its fields, and the line counts one
call of `name`, and one error of `name` exactly when `r` contains `-` and is not `-1`; the
counts of every other name stay as they were. -/
theorem parseTraceLine_traceLine (t : SyscallTracer) {h m s f name args r : String}
    (hh : IsRun U.isDigit h.toList) (hm : IsRun U.isDigit m.toList)
    (hs : IsRun U.isDigit s.toList) (hf : IsRun U.isDigit f.toList)
    (hname : IsRun U.isWord name.toList) (hargs : ∀ c ∈ args.toList, c ≠ '\n' ∧ c ≠ ')')
    (hr : r ≠ "") (hr_lt : '<' ∉ r.toList)
    (hr_space : ∀ c ∈ r.toList.head?, U.isSpace c = false) :
    matchTraceLine U (traceLine h m s f name args r) =
        some ⟨h ++ ":" ++ m ++ ":" ++ s ++ "." ++ f, name, args, r, none⟩ ∧
      parseTraceLine U toFloat t (traceLine h m s f name args r) =
        ⟨t.syscallStats.addTo name 1,
          if '-' ∈ r.toList ∧ r ≠ "-1" then t.errorStats.addTo name 1 else t.errorStats,
          t.timingData⟩ ∧
      (∀ n, (parseTraceLine U toFloat t (traceLine h m s f name args r)).syscallStats.getD n =
        t.syscallStats.getD n + if n = name then 1 else 0) ∧
      ∀ n, (parseTraceLine U toFloat t (traceLine h m s f name args r)).errorStats.getD n =
        t.errorStats.getD n + if n = name ∧ '-' ∈ r.toList ∧ r ≠ "-1" then 1 else 0 := by
  obtain ⟨c, rest, hcr⟩ := List.exists_cons_of_ne_nil (mt String.ext hr)
  have hc : c ≠ '<' := fun hc => hr_lt (by simp [hcr, hc])
  have hmatch := matchTraceLine_traceLine U hh hm hs hf hname hargs hcr hc
    (hr_space c (by simp [hcr]))
  rw [List.takeWhile_eq_self_iff.2 fun x hx => by simpa using ne_of_mem_of_not_mem hx hr_lt]
    at hmatch
  have hstate : parseTraceLine U toFloat t (traceLine h m s f name args r) =
      ⟨t.syscallStats.addTo name 1,
        if '-' ∈ r.toList ∧ r ≠ "-1" then t.errorStats.addTo name 1 else t.errorStats,
        t.timingData⟩ := by
    rw [parseTraceLine_of_some U toFloat hmatch]
    simp [countMatch, isErrorResult, hr]
  refine ⟨hmatch, hstate, fun n => by simp [hstate], fun n => ?_⟩
  rw [hstate]
  by_cases he : '-' ∈ r.toList ∧ r ≠ "-1"
  · rw [if_pos he, Dict.getD_addTo, if_congr (and_iff_left he) rfl rfl]
  · rw [if_neg he, if_neg fun hn => he hn.2, Nat.add_zero]

/-- A failed `openat` read from a fresh tracer: the call and its error are both counted. -/
theorem parseTraceLine_traceLine_openat :
    (IsRun UnicodeClasses.ascii.isDigit "12".toList ∧ IsRun UnicodeClasses.ascii.isDigit "00".toList ∧
      IsRun UnicodeClasses.ascii.isDigit "000001".toList ∧
      IsRun UnicodeClasses.ascii.isWord "openat".toList ∧
      (∀ c ∈ "AT_FDCWD, \"/nonexistent\", O_RDONLY".toList, c ≠ '\n' ∧ c ≠ ')') ∧
      "-1 ENOENT (No such file or directory)" ≠ "" ∧
      '<' ∉ "-1 ENOENT (No such file or directory)".toList ∧
      ∀ c ∈ "-1 ENOENT (No such file or directory)".toList.head?,
        UnicodeClasses.ascii.isSpace c = false) ∧
    let line := traceLine "12" "00" "00" "000001" "openat" "AT_FDCWD, \"/nonexistent\", O_RDONLY"
      "-1 ENOENT (No such file or directory)"
    matchTraceLine .ascii line = some ⟨"12:00:00.000001", "openat",
        "AT_FDCWD, \"/nonexistent\", O_RDONLY", "-1 ENOENT (No such file or directory)", none⟩ ∧
      parseTraceLine .ascii (fun _ => none) .init line =
        ⟨SyscallTracer.init.syscallStats.addTo "openat" 1,
          if '-' ∈ "-1 ENOENT (No such file or directory)".toList ∧
            "-1 ENOENT (No such file or directory)" ≠ "-1"
          then SyscallTracer.init.errorStats.addTo "openat" 1 else SyscallTracer.init.errorStats,
          SyscallTracer.init.timingData⟩ ∧
      (∀ n, (parseTraceLine .ascii (fun _ => none) .init line).syscallStats.getD n =
        SyscallTracer.init.syscallStats.getD n + if n = "openat" then 1 else 0) ∧
      ∀ n, (parseTraceLine .ascii (fun _ => none) .init line).errorStats.getD n =
        SyscallTracer.init.errorStats.getD n +
          if n = "openat" ∧ '-' ∈ "-1 ENOENT (No such file or directory)".toList ∧
            "-1 ENOENT (No such file or directory)" ≠ "-1" then 1 else 0 :=
  have hdigits : IsRun UnicodeClasses.ascii.isDigit "000001".toList := ⟨by decide, by decide⟩
  ⟨⟨⟨by decide, by decide⟩, ⟨by decide, by decide⟩, hdigits, ⟨by decide, by decide⟩, by decide,
    by decide, by decide, by decide⟩,
    parseTraceLine_traceLine .ascii (fun _ => none) .init ⟨by decide, by decide⟩
      ⟨by decide, by decide⟩ ⟨by decide, by decide⟩ hdigits ⟨by decide, by decide⟩ (by decide)
      (by decide) (by decide) (by decide)⟩

/-- What every reachable state satisfies: each counted call has count at least one, and each
name with errors is a counted call with at least one and at most as many errors as calls. -/
structure TracerInv (t : SyscallTracer) : Prop where
  stats_pos : ∀ n ∈ t.syscallStats.keys, 1 ≤ t.syscallStats.getD n
  errors_mem : ∀ n ∈ t.errorStats.keys, n ∈ t.syscallStats.keys
  errors_pos : ∀ n ∈ t.errorStats.keys, 1 ≤ t.errorStats.getD n
  errors_le : ∀ n, t.errorStats.getD n ≤ t.syscallStats.getD n

/-- The empty tracer satisfies the invariant. -/
theorem tracerInv_init : TracerInv .init :=
  ⟨by simp [SyscallTracer.init], by simp [SyscallTracer.init], by simp [SyscallTracer.init],
    by simp [SyscallTracer.init]⟩

/-- Counting a matched line keeps the invariant. -/
theorem TracerInv.countMatch {t : SyscallTracer} (ht : TracerInv t) (g : TraceMatch) :
    TracerInv (countMatch t g) := by
  have hmem : ∀ n ∈ t.syscallStats.keys, n ∈ (t.syscallStats.addTo g.syscall 1).keys :=
    fun n hn => (Dict.mem_keys_addTo _ _ _ _).2 (.inr hn)
  have hstats := Dict.pos_addTo ht.stats_pos g.syscall le_rfl
  by_cases he : isErrorResult g.result
  · simp only [OsCompas.Tracer.countMatch, he, if_true]
    refine ⟨hstats, fun n hn => ?_, Dict.pos_addTo ht.errors_pos g.syscall le_rfl, fun n => ?_⟩
    · rcases (Dict.mem_keys_addTo _ _ _ _).1 hn with rfl | hn
      · exact (Dict.mem_keys_addTo _ _ _ _).2 (.inl rfl)
      · exact hmem n (ht.errors_mem n hn)
    · simpa only [Dict.getD_addTo] using Nat.add_le_add_right (ht.errors_le n) _
  · simp only [Bool.not_eq_true] at he
    simp only [OsCompas.Tracer.countMatch, he]
    exact ⟨hstats, fun n hn => hmem n (ht.errors_mem n hn), ht.errors_pos, fun n => by
      simpa only [Dict.getD_addTo] using Nat.le_add_right_of_le (ht.errors_le n)⟩

/-- A property kept by every line holds of every reachable state. -/
theorem Reachable.induction {P : SyscallTracer → Prop} (h0 : P .init)
    (hstep : ∀ t line, P t → P (parseTraceLine U toFloat t line)) {t : SyscallTracer}
    (ht : Reachable U toFloat t) : P t := by
  have hfold : ∀ (lines : List String) (s : SyscallTracer), P s →
      P (lines.foldl (parseTraceLine U toFloat) s) := by
    intro lines
    induction lines with
    | nil => exact fun _ h => h
    | cons line lines ih => exact fun s h => ih _ (hstep s line h)
  induction ht with
  | init => exact h0
  | line line _ ih => exact hstep _ line ih
  | file file _ ih =>
    cases file with
    | none => exact ih
    | some lines => exact hfold lines _ ih

/-- Every reachable state satisfies the invariant. -/
theorem Reachable.inv {t : SyscallTracer} (ht : Reachable U toFloat t) : TracerInv t :=
  ht.induction U toFloat tracerInv_init fun t line hi => by
    rw [parseTraceLine_eq]
    cases matchTraceLine U line with
    | none => exact hi
    | some g => exact hi.countMatch g

/-! ### Elapsed times and line ends -/

/-- An elapsed time that strace `-T` writes after the result does not reach `timing_data`:
the greedy result group keeps the blank before `<`, and the duration group is skipped. -/
theorem parseTraceLine_elapsed_dropped :
    matchTraceLine U "12:00:00.000001 read(3, \"\", 4096) = 0 <0.000123>\n" =
        some ⟨"12:00:00.000001", "read", "3, \"\", 4096", "0 ", none⟩ ∧
      (parseTraceLine U toFloat .init
        "12:00:00.000001 read(3, \"\", 4096) = 0 <0.000123>\n").timingData = [] :=
  ⟨rfl, timingData_parseTraceLine U toFloat _ _⟩

/-- The same call is an error or not depending on its line end: with a newline the result
is `-1\n`, which the `!= '-1'` test no longer excludes. -/
theorem errorStats_line_end :
    (parseTraceLine U toFloat .init "12:00:00.000001 read(3) = -1").errorStats.entries = [] ∧
      (parseTraceLine U toFloat .init "12:00:00.000001 read(3) = -1\n").errorStats.entries =
        [("read", 1)] :=
  ⟨rfl, rfl⟩

end OsCompas.Tracer
