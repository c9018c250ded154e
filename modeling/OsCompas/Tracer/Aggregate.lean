import OsCompas.Tracer.Parse

/-!
# What the counters count

The state `parse_trace_file` leaves in a fresh tracer (`syscall_tracer.py:93–98`) as a
function of the trace's matched lines: both counters depend only on the multiset of lines,
and `most_common` ranks names by count with ties in first-seen order.
-/

namespace OsCompas.Tracer

open OsCompas.Python

variable (U : UnicodeClasses) (toFloat : String → Option ℚ)

/-- The state of a fresh tracer after `parse_trace_file` on a file of lines `L`. -/
def parseLines (L : List String) : SyscallTracer := L.foldl (parseTraceLine U toFloat) .init

/-- The matches of a trace's lines, in order. -/
def traceMatches (L : List String) : List TraceMatch := L.filterMap (matchTraceLine U)

/-- The call names of a trace's matched lines, in order. -/
def callNames (L : List String) : List String := (traceMatches U L).map TraceMatch.syscall

/-- The call names of the matched lines whose result reads as an error. -/
def errorNames (L : List String) : List String :=
  ((traceMatches U L).filter (fun g => isErrorResult g.result)).map TraceMatch.syscall

/-- Parsing a trace with one more line parses that line last. -/
theorem parseLines_append_singleton (L : List String) (l : String) :
    parseLines U toFloat (L ++ [l]) = parseTraceLine U toFloat (parseLines U toFloat L) l :=
  List.foldl_append _ _ _ _

/-- A trace with one more line has that line's match, if any, last. -/
theorem traceMatches_append_singleton (L : List String) (l : String) :
    traceMatches U (L ++ [l]) = traceMatches U L ++ (matchTraceLine U l).toList := by
  cases h : matchTraceLine U l <;> simp [traceMatches, h]

/-- `syscall_stats[n]` counts the matched lines of call `n`. -/
theorem getD_syscallStats (L : List String) (n : String) :
    (parseLines U toFloat L).syscallStats.getD n = (callNames U L).count n := by
  induction L using List.reverseRecOn with
  | nil => rfl
  | append_singleton L l ih =>
    rw [parseLines_append_singleton, parseTraceLine_eq, callNames,
      traceMatches_append_singleton]
    cases matchTraceLine U l with
    | none => simpa [callNames] using ih
    | some g =>
      by_cases hn : n = g.syscall
      · subst hn; simp [countMatch, ih, callNames]
      · simp [countMatch, ih, callNames, hn, Ne.symm hn]

/-- `error_stats[n]` counts the matched lines of call `n` whose result reads as an error. -/
theorem getD_errorStats (L : List String) (n : String) :
    (parseLines U toFloat L).errorStats.getD n = (errorNames U L).count n := by
  induction L using List.reverseRecOn with
  | nil => rfl
  | append_singleton L l ih =>
    rw [parseLines_append_singleton, parseTraceLine_eq, errorNames,
      traceMatches_append_singleton]
    cases matchTraceLine U l with
    | none => simpa [errorNames] using ih
    | some g =>
      by_cases he : isErrorResult g.result
      · by_cases hn : n = g.syscall
        · subst hn; simp [countMatch, he, ih, errorNames]
        · simp [countMatch, he, ih, errorNames, hn, Ne.symm hn]
      · simp [countMatch, he, ih, errorNames]

/-- Every state `parse_trace_file` leaves is reachable. -/
theorem reachable_parseLines (L : List String) : Reachable U toFloat (parseLines U toFloat L) :=
  .file (some L) .init

/-- No line of a trace reaches `timing_data`. -/
theorem timingData_parseLines (L : List String) : (parseLines U toFloat L).timingData = [] := by
  induction L using List.reverseRecOn with
  | nil => rfl
  | append_singleton L l ih => rw [parseLines_append_singleton, timingData_parseTraceLine, ih]

/-- The keys of `syscall_stats` are the matched call names, in the order of their first
matching lines. -/
theorem keys_syscallStats (L : List String) :
    (∀ n, n ∈ (parseLines U toFloat L).syscallStats.keys ↔ n ∈ callNames U L) ∧
      (parseLines U toFloat L).syscallStats.keys.Pairwise
        (fun a b => (callNames U L).indexOf a < (callNames U L).indexOf b) := by
  induction L using List.reverseRecOn with
  | nil => simp [parseLines, SyscallTracer.init, callNames, traceMatches]
  | append_singleton L l ih =>
    rw [parseLines_append_singleton, parseTraceLine_eq, callNames,
      traceMatches_append_singleton]
    cases matchTraceLine U l with
    | none => simpa [callNames] using ih
    | some g =>
      obtain ⟨hmem, hord⟩ := ih
      simp only [Option.map_some', Option.getD_some, countMatch, Option.toList_some,
        List.map_append, List.map_cons, List.map_nil]
      rw [show (traceMatches U L).map TraceMatch.syscall = callNames U L from rfl]
      have hidx : ∀ a ∈ (parseLines U toFloat L).syscallStats.keys,
          (callNames U L ++ [g.syscall]).indexOf a = (callNames U L).indexOf a :=
        fun a ha => List.indexOf_append_of_mem ((hmem a).1 ha)
      refine ⟨fun n => by simp [Dict.mem_keys_addTo, hmem, callNames, or_comm], ?_⟩
      rw [Dict.keys_addTo]
      split
      · exact hord.imp_of_mem fun ha hb h => by rwa [hidx _ ha, hidx _ hb]
      · rename_i hnew
        refine List.pairwise_append.2 ⟨hord.imp_of_mem fun ha hb h => by rwa [hidx _ ha, hidx _ hb],
          List.pairwise_singleton _ _, fun a ha b hb => ?_⟩
        rw [List.mem_singleton] at hb
        subst hb
        have hnot : g.syscall ∉ callNames U L := fun h => hnew ((hmem _).2 h)
        rw [hidx _ ha, List.indexOf_append_of_not_mem hnot]
        exact Nat.lt_add_right _ (List.indexOf_lt_length.2 ((hmem a).1 ha))

/-- Each entry of `syscall_stats` is a matched call name with its number of matched lines. -/
theorem mem_entries_syscallStats {L : List String} {p : String × Nat}
    (hp : p ∈ (parseLines U toFloat L).syscallStats.entries) :
    p.1 ∈ callNames U L ∧ p.2 = (callNames U L).count p.1 := by
  have hk : p.1 ∈ (parseLines U toFloat L).syscallStats.keys := List.mem_map_of_mem _ hp
  refine ⟨(keys_syscallStats U toFloat L).1 _ |>.1 hk, ?_⟩
  rw [← getD_syscallStats, Dict.getD, ((Dict.mem_entries_iff _ _ _).1 hp)]
  rfl

/-! ### `most_common` -/

/-- `a` ranks before `b` in the trace `L`: more calls, or as many and an earlier first
matching line. -/
def RanksBefore (L : List String) (a b : String × Nat) : Prop :=
  b.2 < a.2 ∨ (b.2 = a.2 ∧ (callNames U L).indexOf a.1 < (callNames U L).indexOf b.1)

/-- `most_common()` ranks the whole counter: by count, ties by first matching line. -/
theorem mostCommon_pairwise (L : List String) :
    ((parseLines U toFloat L).syscallStats.mostCommon none).Pairwise (RanksBefore U L) := by
  refine List.pairwise_iff_forall_sublist.2 fun {a b} hab => ?_
  have hle : b.2 ≤ a.2 := by simpa using (Dict.mostCommon_sorted _).sublist hab
  rcases Nat.lt_or_eq_of_le hle with hlt | heq
  · exact .inl hlt
  · refine .inr ⟨heq, ?_⟩
    have hfilt : [a, b].Sublist
        ((parseLines U toFloat L).syscallStats.entries.filter (·.2 = a.2)) := by
      rw [← Dict.filter_mostCommon]
      simpa [heq] using hab.filter (·.2 = a.2)
    have hkeys : [a.1, b.1].Sublist (parseLines U toFloat L).syscallStats.keys :=
      (hfilt.trans (List.filter_sublist _)).map Prod.fst
    simpa using (keys_syscallStats U toFloat L).2.sublist hkeys

/-- A matched call name is stored with its count. -/
theorem mem_entries_of_mem_callNames {L : List String} {n : String} (hn : n ∈ callNames U L) :
    (n, (callNames U L).count n) ∈ (parseLines U toFloat L).syscallStats.entries := by
  rw [Dict.mem_entries_iff, Dict.get?_eq, if_pos ((keys_syscallStats U toFloat L).1 n |>.2 hn),
    getD_syscallStats]

/-- `syscall_stats.most_common(10)`, printed by both reports: the first ten (or all `d`) of
the distinct matched names with their counts, ranked by count and then by first matching
line, each of them ranked before every name it leaves out. -/
theorem mostCommon_parseLines (L : List String) :
    let t : SyscallTracer := parseLines U toFloat L
    let top := t.syscallStats.mostCommon (some 10)
    top.length = min 10 (callNames U L).dedup.length ∧
      (∀ p ∈ top, p.1 ∈ callNames U L ∧ p.2 = (callNames U L).count p.1) ∧
      top.Pairwise (RanksBefore U L) ∧
      ∀ p ∈ top, ∀ n ∈ callNames U L, n ∉ top.map Prod.fst →
        RanksBefore U L p (n, (callNames U L).count n) := by
  have hperm := Dict.mostCommon_perm (parseLines U toFloat L).syscallStats
  have hM := mostCommon_pairwise U toFloat L
  have hsplit := List.take_append_drop 10 ((parseLines U toFloat L).syscallStats.mostCommon none)
  have hkeys : (parseLines U toFloat L).syscallStats.keys.Perm (callNames U L).dedup :=
    (List.perm_ext_iff_of_nodup (Dict.nodup_keys _) (List.nodup_dedup _)).2 fun n => by
      rw [List.mem_dedup]
      exact (keys_syscallStats U toFloat L).1 n
  refine ⟨?_, fun p hp => ?_, hM.sublist (List.take_sublist _ _), fun p hp n hn hnot => ?_⟩
  · simp only [Dict.mostCommon, List.length_take]
    rw [← hkeys.length_eq, Dict.keys, List.length_map, ← hperm.length_eq]
    rfl
  · exact mem_entries_syscallStats U toFloat (hperm.subset (List.take_subset _ _ hp))
  · have hmem : (n, (callNames U L).count n) ∈
        (parseLines U toFloat L).syscallStats.mostCommon none :=
      hperm.symm.subset (mem_entries_of_mem_callNames U toFloat hn)
    rw [← hsplit, List.mem_append] at hmem
    rw [← hsplit] at hM
    rcases hmem with htop | hdrop
    · exact absurd (List.mem_map_of_mem Prod.fst htop) hnot
    · exact (List.pairwise_append.1 hM).2.2 p hp _ hdrop

end OsCompas.Tracer
