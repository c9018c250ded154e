import Mathlib.Algebra.Order.Field.Rat
import OsCompas.Tracer.Aggregate

/-!
# Categories and reports

`generate_report` and the text and JSON reports, `syscall_tracer.py:130–222`, and the
category loop of `trace_visualizer.py:35–45`, in `Except` for `ZeroDivisionError`. The text
report and the visualizer file each call under its first category or `other`; the JSON
report has no `other`.
-/

namespace OsCompas.Tracer

open OsCompas.Python

/-- `self.syscall_categories`, `syscall_tracer.py:26–33`, in declaration order. -/
def syscallCategories : List (String × List String) :=
  [("file_operations", ["open", "read", "write", "close", "stat", "lseek"]),
    ("process_control", ["fork", "execve", "wait4", "exit", "clone"]),
    ("memory_management", ["brk", "mmap", "munmap", "mprotect"]),
    ("network_operations", ["socket", "connect", "accept", "send", "recv"]),
    ("signals", ["kill", "signal", "sigaction"]),
    ("time_operations", ["time", "gettimeofday", "nanosleep"])]

/-- The exception a report can raise. -/
inductive PyError
  | zeroDivisionError
  deriving DecidableEq

/-- `(count / total) * 100`. -/
def percentage (count total : Nat) : Except PyError ℚ :=
  if total = 0 then .error .zeroDivisionError else .ok ((count : ℚ) / total * 100)

/-! ### Three category loops -/

/-- The inner `for ... else` of `syscall_tracer.py:177–182`: add `count` to the first
category whose list holds `syscall`, or to `'other'` when the loop ends without `break`. -/
def addToFirstCategory (syscall : String) (count : Nat) :
    List (String × List String) → Dict Nat → Dict Nat
  | [], categoryStats => categoryStats.addTo "other" count
  | (category, syscalls) :: rest, categoryStats =>
    if syscall ∈ syscalls then categoryStats.addTo category count
    else addToFirstCategory syscall count rest categoryStats

/-- `category_stats` of `_generate_text_report`, `syscall_tracer.py:175–182`. -/
def categoryStats (syscallStats : Dict Nat) : Dict Nat :=
  syscallStats.entries.foldl
    (fun categoryStats p => addToFirstCategory p.1 p.2 syscallCategories categoryStats) .empty

/-- The inner loop of `trace_visualizer.py:39–43`: `category_data` after it, and
`category_found`. -/
def findCategory (syscall : String) (count : Nat) :
    List (String × List String) → Dict Nat → Dict Nat × Bool
  | [], categoryData => (categoryData, false)
  | (category, syscalls) :: rest, categoryData =>
    if syscall ∈ syscalls then (categoryData.addTo category count, true)
    else findCategory syscall count rest categoryData

/-- `category_data` of `visualize_trace_data`, `trace_visualizer.py:36–45`. -/
def categoryData (syscallStats : Dict Nat) : Dict Nat :=
  syscallStats.entries.foldl (fun categoryData p =>
    let (categoryData, categoryFound) := findCategory p.1 p.2 syscallCategories categoryData
    if !categoryFound then categoryData.addTo "other" p.2 else categoryData) .empty

/-- `sum(self.syscall_stats.get(s, 0) for s in syscalls)`, `syscall_tracer.py:211`. -/
def categoryCount (syscallStats : Dict Nat) (syscalls : List String) : Nat :=
  (syscalls.map syscallStats.getD).sum

/-- `report['categories']` of `_generate_json_report`, `syscall_tracer.py:209–216`. -/
def jsonCategories (syscallStats : Dict Nat) (totalCalls : Nat) :
    Except PyError (Dict (Nat × ℚ)) :=
  syscallCategories.foldlM (fun categories p =>
    let categoryCount := categoryCount syscallStats p.2
    if categoryCount > 0 then do
      let percentage ← percentage categoryCount totalCalls
      pure (categories.set p.1 (categoryCount, percentage))
    else pure categories) .empty

/-! ### The classification of the category loops -/

/-- The first-match rule of the `for ... else` loop, `syscall_tracer.py:176–182`: the first
category, in declaration order, whose list holds `syscall`, and `'other'` when there is
none. -/
def firstCategory (syscall : String) : String :=
  ((syscallCategories.find? (fun p => syscall ∈ p.2)).map Prod.fst).getD "other"

/-- The category loop adds the count to the first category listing the call, or to `other`. -/
theorem addToFirstCategory_eq (syscall : String) (count : Nat) (cs : List (String × List String))
    (acc : Dict Nat) :
    addToFirstCategory syscall count cs acc =
      acc.addTo (((cs.find? (fun p => syscall ∈ p.2)).map Prod.fst).getD "other") count := by
  induction cs with
  | nil => rfl
  | cons p cs ih => by_cases h : syscall ∈ p.2 <;> simp [addToFirstCategory, h, ih]

/-- The category search finds the first category listing the call. -/
theorem findCategory_eq (syscall : String) (count : Nat) (cs : List (String × List String))
    (acc : Dict Nat) :
    findCategory syscall count cs acc =
      match cs.find? (fun p => syscall ∈ p.2) with
      | some p => (acc.addTo p.1 count, true)
      | none => (acc, false) := by
  induction cs with
  | nil => rfl
  | cons p cs ih => by_cases h : syscall ∈ p.2 <;> simp [findCategory, h, ih]

/-- The text report's loop adds each count under the name's `firstCategory`. -/
theorem categoryStats_eq_addAll (syscallStats : Dict Nat) :
    categoryStats syscallStats =
      Dict.addAll (fun p => firstCategory p.1) Prod.snd .empty syscallStats.entries := by
  simp only [categoryStats, Dict.addAll, addToFirstCategory_eq, firstCategory]

/-- The visualizer's loop adds each count under the name's `firstCategory`. -/
theorem categoryData_eq_addAll (syscallStats : Dict Nat) :
    categoryData syscallStats =
      Dict.addAll (fun p => firstCategory p.1) Prod.snd .empty syscallStats.entries := by
  simp only [categoryData, Dict.addAll, findCategory_eq, firstCategory]
  congr 1
  funext acc p
  cases syscallCategories.find? (fun q => p.1 ∈ q.2) <;> rfl

/-- A first-match lookup names `'other'` or one of the categories. -/
theorem find?_label_mem (cs : List (String × List String)) (n : String) :
    ((cs.find? (fun p => n ∈ p.2)).map Prod.fst).getD "other" ∈ "other" :: cs.map Prod.fst := by
  cases h : cs.find? (fun p => n ∈ p.2) with
  | none => simp
  | some p => simp [List.mem_map_of_mem _ (List.mem_of_find?_eq_some h)]

/-- With distinct labels other than `'other'` and pairwise disjoint lists, the first match
names the category `c` exactly for the names in `c`'s list. -/
theorem find?_label_eq_iff {cs : List (String × List String)} {c : String} {ss : List String}
    (hmem : (c, ss) ∈ cs) (hlabels : (cs.map Prod.fst).Nodup)
    (hother : "other" ∉ cs.map Prod.fst) (hdisj : cs.Pairwise (fun p q => ∀ x ∈ p.2, x ∉ q.2))
    (n : String) : ((cs.find? (fun p => n ∈ p.2)).map Prod.fst).getD "other" = c ↔ n ∈ ss := by
  induction cs with
  | nil => cases hmem
  | cons p cs ih =>
    rcases p with ⟨c', ss'⟩
    simp only [List.map_cons, List.nodup_cons, List.mem_cons, not_or] at hlabels hother
    rw [List.pairwise_cons] at hdisj
    rcases List.mem_cons.1 hmem with heq | hmem
    · cases heq
      by_cases hn : n ∈ ss
      · simp [hn]
      · have hr := find?_label_mem cs n
        simp only [List.find?_cons, hn, decide_False, iff_false]
        rintro hc
        rw [hc, List.mem_cons] at hr
        exact hr.elim (fun h => hother.1 h.symm) hlabels.1
    · have hc : c' ≠ c := fun h => hlabels.1 (h ▸ List.mem_map_of_mem _ hmem)
      by_cases hn : n ∈ ss'
      · simp [hn, hc, hdisj.1 _ hmem n hn]
      · simp [hn, ih hmem hlabels.2 hother.2 hdisj.2]

/-- The category lists of `syscall_categories` are pairwise disjoint, under distinct labels. -/
theorem firstCategory_eq_iff {c : String} {ss : List String} (hmem : (c, ss) ∈ syscallCategories)
    (n : String) : firstCategory n = c ↔ n ∈ ss :=
  find?_label_eq_iff hmem (by decide) (by decide) (by decide) n

/-- The categories of `category_stats` are those of the counted calls. -/
theorem mem_keys_categoryStats (syscallStats : Dict Nat) (c : String) :
    c ∈ (categoryStats syscallStats).keys ↔ ∃ p ∈ syscallStats.entries, firstCategory p.1 = c := by
  simp [categoryStats_eq_addAll, Dict.mem_keys_addAll]

/-- A category's count in `category_stats` sums the calls whose `firstCategory` it is. -/
theorem getD_categoryStats (syscallStats : Dict Nat) (c : String) :
    (categoryStats syscallStats).getD c =
      ((syscallStats.entries.filter (fun p => firstCategory p.1 = c)).map Prod.snd).sum := by
  simp [categoryStats_eq_addAll]

/-- `category_stats` counts every call once, `other` included. -/
theorem total_categoryStats (syscallStats : Dict Nat) :
    (categoryStats syscallStats).total = syscallStats.total := by
  rw [categoryStats_eq_addAll, Dict.total_addAll, Dict.total_empty, Nat.zero_add]
  rfl

/-- `category_stats`, from the `for ... else` loop: every call's count goes to its
`firstCategory`, and the category totals sum to the total of `syscall_stats`. -/
theorem categoryStats_spec (syscallStats : Dict Nat) :
    (∀ c, c ∈ (categoryStats syscallStats).keys ↔ ∃ p ∈ syscallStats.entries, firstCategory p.1 = c) ∧
      (∀ c, (categoryStats syscallStats).getD c =
        ((syscallStats.entries.filter (fun p => firstCategory p.1 = c)).map Prod.snd).sum) ∧
      (categoryStats syscallStats).total = syscallStats.total :=
  ⟨mem_keys_categoryStats syscallStats, getD_categoryStats syscallStats,
    total_categoryStats syscallStats⟩

/-- On a named category the text report's count is the JSON report's sum over its list. -/
theorem getD_categoryStats_of_mem (syscallStats : Dict Nat) {c : String} {ss : List String}
    (hmem : (c, ss) ∈ syscallCategories) :
    (categoryStats syscallStats).getD c = categoryCount syscallStats ss := by
  have hnd : ss.Nodup := (show ∀ p ∈ syscallCategories, p.2.Nodup by decide) _ hmem
  rw [getD_categoryStats, categoryCount, Dict.sum_map_getD _ hnd]
  congr 2
  exact List.filter_congr fun p _ => by simp [firstCategory_eq_iff hmem]

/-- A category's count never exceeds the total of `syscall_stats`. -/
theorem categoryCount_le_total (syscallStats : Dict Nat) {p : String × List String}
    (hp : p ∈ syscallCategories) : categoryCount syscallStats p.2 ≤ syscallStats.total := by
  rw [← getD_categoryStats_of_mem syscallStats hp, ← total_categoryStats syscallStats]
  exact Dict.getD_le_total _ _

/-! ### Reports -/

/-- What `_generate_text_report` prints: totals, then rows of name, count and percentage. -/
structure TextReport where
  totalCalls : Nat
  uniqueCalls : Nat
  top : List (String × Nat × ℚ)
  errors : List (String × Nat × ℚ)
  categories : List (String × Nat × ℚ)

/-- Rows of name, count and `(count / total_calls) * 100`, as the Top 10 and category
loops print them (`syscall_tracer.py:159–161,184–186,198–201`). -/
def percentRows (rows : List (String × Nat)) (totalCalls : Nat) :
    Except PyError (List (String × Nat × ℚ)) :=
  rows.mapM fun p => do pure (p.1, p.2, ← percentage p.2 totalCalls)

/-- The error section, `syscall_tracer.py:164–170`: `error_stats.most_common(5)` with each
call's error rate, and nothing when `error_stats` is empty. -/
def errorRows (t : SyscallTracer) : Except PyError (List (String × Nat × ℚ)) :=
  if t.errorStats.entries = [] then pure []
  else (t.errorStats.mostCommon (some 5)).mapM fun p => do
    pure (p.1, p.2, ← percentage p.2 (t.syscallStats.getD p.1))

/-- `_generate_text_report`, `syscall_tracer.py:145–186`. -/
def generateTextReport (t : SyscallTracer) (totalCalls : Nat) : Except PyError TextReport := do
  let top ← percentRows (t.syscallStats.mostCommon (some 10)) totalCalls
  let errors ← errorRows t
  let categories ← percentRows ((categoryStats t.syscallStats).mostCommon none) totalCalls
  pure ⟨totalCalls, t.syscallStats.len, top, errors, categories⟩

/-- The document `_generate_json_report` dumps. -/
structure JsonReport where
  totalSyscalls : Nat
  uniqueSyscalls : Nat
  analysisTime : String
  topSyscalls : List (String × Nat × ℚ)
  errors : List (String × Nat)
  categories : Dict (Nat × ℚ)

/-- `_generate_json_report`, `syscall_tracer.py:188–222`; `now` is `datetime.now().isoformat()`. -/
def generateJsonReport (t : SyscallTracer) (totalCalls : Nat) (now : String) :
    Except PyError JsonReport := do
  let topSyscalls ← percentRows (t.syscallStats.mostCommon (some 10)) totalCalls
  let categories ← jsonCategories t.syscallStats totalCalls
  pure ⟨totalCalls, t.syscallStats.len, now, topSyscalls, t.errorStats.mostCommon none,
    categories⟩

/-- What `generate_report` produces. -/
inductive ReportOutput
  /-- The "no data" message for an empty `syscall_stats`. -/
  | noData
  | text (r : TextReport)
  | json (r : JsonReport)
  /-- An output format that is neither `text` nor `json`. -/
  | nothing

/-- `generate_report`, `syscall_tracer.py:130–143`. -/
def generateReport (t : SyscallTracer) (outputFormat now : String) : Except PyError ReportOutput :=
  if t.syscallStats.entries = [] then .ok .noData
  else if outputFormat = "text" then .text <$> generateTextReport t t.syscallStats.total
  else if outputFormat = "json" then .json <$> generateJsonReport t t.syscallStats.total now
  else .ok .nothing

/-! ### Reports that do not raise -/

/-- With a positive total a percentage is the count over the total, times 100. -/
theorem percentage_of_pos {total : Nat} (h : 0 < total) (count : Nat) :
    percentage count total = .ok ((count : ℚ) / total * 100) := by
  simp [percentage, Nat.pos_iff_ne_zero.1 h]

/-- A comprehension whose every element evaluates does not raise. -/
theorem mapM_eq_ok {α β : Type} {f : α → Except PyError β} {g : α → β} :
    ∀ {l : List α}, (∀ x ∈ l, f x = .ok (g x)) → l.mapM f = .ok (l.map g)
  | [], _ => rfl
  | x :: l, h => by
    rw [List.mapM_cons, h x (List.mem_cons_self _ _),
      mapM_eq_ok fun y hy => h y (List.mem_cons_of_mem _ hy)]
    rfl

/-- A loop whose every step evaluates does not raise. -/
theorem foldlM_eq_ok {α β : Type} {f : β → α → Except PyError β} {g : β → α → β} :
    ∀ {l : List α} (acc : β), (∀ acc, ∀ x ∈ l, f acc x = .ok (g acc x)) →
      l.foldlM f acc = .ok (l.foldl g acc)
  | [], _, _ => rfl
  | x :: l, acc, h => by
    rw [List.foldlM_cons, h acc x (List.mem_cons_self _ _)]
    exact foldlM_eq_ok _ fun acc y hy => h acc y (List.mem_cons_of_mem _ hy)

/-- With a positive total every row's percentage is computed. -/
theorem percentRows_of_pos {total : Nat} (h : 0 < total) (rows : List (String × Nat)) :
    percentRows rows total = .ok (rows.map fun p => (p.1, p.2, (p.2 : ℚ) / total * 100)) :=
  mapM_eq_ok fun p _ => by rw [percentage_of_pos h]; rfl

/-- The error rows are computed when each listed error's call was counted. -/
theorem errorRows_ok {t : SyscallTracer}
    (h : ∀ p ∈ t.errorStats.mostCommon (some 5), 0 < t.syscallStats.getD p.1) :
    ∃ rows, errorRows t = .ok rows := by
  unfold errorRows
  split
  · exact ⟨_, rfl⟩
  · exact ⟨_, mapM_eq_ok fun p hp => by rw [percentage_of_pos (h p hp)]; rfl⟩

/-- The body of the JSON category loop when no division raises. -/
def jsonCategoryStep (syscallStats : Dict Nat) (totalCalls : Nat) (categories : Dict (Nat × ℚ))
    (p : String × List String) : Dict (Nat × ℚ) :=
  if categoryCount syscallStats p.2 > 0 then
    categories.set p.1 (categoryCount syscallStats p.2,
      (categoryCount syscallStats p.2 : ℚ) / totalCalls * 100)
  else categories

/-- A step of the JSON category loop leaves every other category unchanged. -/
theorem get?_jsonCategoryStep_of_ne (syscallStats : Dict Nat) (totalCalls : Nat)
    (acc : Dict (Nat × ℚ)) {p : String × List String} {c : String} (hc : p.1 ≠ c) :
    (jsonCategoryStep syscallStats totalCalls acc p).get? c = acc.get? c := by
  rw [jsonCategoryStep]
  split <;> simp [Ne.symm hc]

/-- The JSON category loop leaves a category it never visits unchanged. -/
theorem get?_foldl_jsonCategoryStep_of_not_mem (syscallStats : Dict Nat) (totalCalls : Nat)
    {c : String} : ∀ {cs : List (String × List String)} (acc : Dict (Nat × ℚ)),
      c ∉ cs.map Prod.fst →
      (cs.foldl (jsonCategoryStep syscallStats totalCalls) acc).get? c = acc.get? c
  | [], _, _ => rfl
  | p :: cs, acc, hc => by
    simp only [List.map_cons, List.mem_cons, not_or] at hc
    rw [List.foldl_cons, get?_foldl_jsonCategoryStep_of_not_mem _ _ _ hc.2,
      get?_jsonCategoryStep_of_ne _ _ _ (Ne.symm hc.1)]

/-- The JSON loop stores a named category exactly when its count is positive. -/
theorem get?_foldl_jsonCategoryStep (syscallStats : Dict Nat) (totalCalls : Nat)
    {c : String} {ss : List String} : ∀ {cs : List (String × List String)} (acc : Dict (Nat × ℚ)),
      (cs.map Prod.fst).Nodup → (c, ss) ∈ cs →
      (cs.foldl (jsonCategoryStep syscallStats totalCalls) acc).get? c =
        if categoryCount syscallStats ss > 0 then
          some (categoryCount syscallStats ss, (categoryCount syscallStats ss : ℚ) / totalCalls * 100)
        else acc.get? c
  | [], _, _, hmem => by cases hmem
  | p :: cs, acc, hnd, hmem => by
    simp only [List.map_cons, List.nodup_cons] at hnd
    rw [List.foldl_cons]
    rcases List.mem_cons.1 hmem with rfl | hmem
    · rw [get?_foldl_jsonCategoryStep_of_not_mem _ _ _ hnd.1, jsonCategoryStep]
      split <;> simp [*]
    · have hc : p.1 ≠ c := fun h => hnd.1 (h ▸ List.mem_map_of_mem _ hmem)
      rw [get?_foldl_jsonCategoryStep _ _ _ hnd.2 hmem, get?_jsonCategoryStep_of_ne _ _ _ hc]

/-- The JSON category loop does not raise when every category with calls has a positive
denominator. -/
theorem jsonCategories_eq (syscallStats : Dict Nat) {totalCalls : Nat}
    (h : ∀ p ∈ syscallCategories, 0 < categoryCount syscallStats p.2 → 0 < totalCalls) :
    jsonCategories syscallStats totalCalls =
      .ok (syscallCategories.foldl (jsonCategoryStep syscallStats totalCalls) .empty) := by
  refine foldlM_eq_ok _ fun acc p hp => ?_
  simp only [jsonCategoryStep]
  split
  · rename_i hpos
    rw [percentage_of_pos (h p hp hpos)]
    rfl
  · rfl

/-- The text report raises nothing when the total is positive and each error's call was counted. -/
theorem generateTextReport_ok {t : SyscallTracer} {total : Nat} (htotal : 0 < total)
    (herr : ∀ p ∈ t.errorStats.mostCommon (some 5), 0 < t.syscallStats.getD p.1) :
    ∃ r, generateTextReport t total = .ok r := by
  obtain ⟨rows, hrows⟩ := errorRows_ok herr
  simp only [generateTextReport, percentRows_of_pos htotal, hrows]
  exact ⟨_, rfl⟩

/-- The JSON report raises nothing when the total is positive. -/
theorem generateJsonReport_ok (t : SyscallTracer) {total : Nat} (htotal : 0 < total)
    (now : String) : ∃ r, generateJsonReport t total now = .ok r := by
  simp only [generateJsonReport, percentRows_of_pos htotal,
    jsonCategories_eq _ fun _ _ _ => htotal]
  exact ⟨_, rfl⟩

/-- What `generate_report` reads of a state: the counters' invariant; past the emptiness
check a positive total; positive denominators for the error rates the text report prints;
every error rate in `(0, 1]`; and no `ZeroDivisionError`, whatever the output format. -/
structure ReportSafe (t : SyscallTracer) : Prop where
  inv : TracerInv t
  total_pos : t.syscallStats.entries ≠ [] → 1 ≤ t.syscallStats.total
  error_denominators_pos : ∀ p ∈ t.errorStats.mostCommon (some 5), 0 < t.syscallStats.getD p.1
  error_rate : ∀ n ∈ t.errorStats.keys,
    0 < (t.errorStats.getD n : ℚ) / t.syscallStats.getD n ∧
      (t.errorStats.getD n : ℚ) / t.syscallStats.getD n ≤ 1
  no_raise : ∀ outputFormat now, ∃ out, generateReport t outputFormat now = .ok out

/-- Past the emptiness check the total is positive: every counted call has count one or
more. -/
theorem TracerInv.total_pos {t : SyscallTracer} (ht : TracerInv t)
    (hne : t.syscallStats.entries ≠ []) : 1 ≤ t.syscallStats.total := by
  obtain ⟨p, hp⟩ := List.exists_mem_of_ne_nil _ hne
  have hv : p.2 = t.syscallStats.getD p.1 := by
    simp [Dict.getD, (Dict.mem_entries_iff _ _ _).1 hp]
  exact (hv ▸ ht.stats_pos _ (List.mem_map_of_mem _ hp)).trans (Dict.le_total_of_mem hp)

/-- Every name `error_stats.most_common(5)` lists has calls. -/
theorem TracerInv.error_denominators_pos {t : SyscallTracer} (ht : TracerInv t) :
    ∀ p ∈ t.errorStats.mostCommon (some 5), 0 < t.syscallStats.getD p.1 := fun p hp =>
  have hk : p.1 ∈ t.errorStats.keys := List.mem_map_of_mem _ (Dict.mem_of_mem_mostCommon hp)
  Nat.lt_of_lt_of_le (ht.errors_pos _ hk) (ht.errors_le _)

/-- Every error rate lies in `(0, 1]`. -/
theorem TracerInv.error_rate {t : SyscallTracer} (ht : TracerInv t) {n : String}
    (hn : n ∈ t.errorStats.keys) :
    0 < (t.errorStats.getD n : ℚ) / t.syscallStats.getD n ∧
      (t.errorStats.getD n : ℚ) / t.syscallStats.getD n ≤ 1 := by
  have he : (0 : ℚ) < t.errorStats.getD n := Nat.cast_pos.2 (ht.errors_pos n hn)
  have hle : (t.errorStats.getD n : ℚ) ≤ t.syscallStats.getD n := Nat.cast_le.2 (ht.errors_le n)
  exact ⟨div_pos he (he.trans_le hle), div_le_one_of_le₀ hle (he.trans_le hle).le⟩

/-- `generate_report` does not raise, whatever the output format. -/
theorem TracerInv.generateReport_ok {t : SyscallTracer} (ht : TracerInv t)
    (outputFormat now : String) : ∃ out, generateReport t outputFormat now = .ok out := by
  unfold generateReport
  split_ifs with hne
  · exact ⟨_, rfl⟩
  · obtain ⟨r, hr⟩ := generateTextReport_ok (ht.total_pos hne) ht.error_denominators_pos
    exact ⟨_, by rw [hr]; rfl⟩
  · obtain ⟨r, hr⟩ := generateJsonReport_ok t (ht.total_pos hne) now
    exact ⟨_, by rw [hr]; rfl⟩
  · exact ⟨_, rfl⟩

/-- The invariant gives everything `generate_report` relies on. -/
theorem TracerInv.reportSafe {t : SyscallTracer} (ht : TracerInv t) : ReportSafe t :=
  ⟨ht, ht.total_pos, ht.error_denominators_pos, fun _ => ht.error_rate, ht.generateReport_ok⟩

/-- The JSON report of a state with the invariant, with `total_calls` as `generate_report`
passes it, does not raise, and its categories are the loop's positive counts. -/
theorem generateJsonReport_eq {t : SyscallTracer} (ht : TracerInv t) (now : String) :
    ∃ top, generateJsonReport t t.syscallStats.total now = .ok ⟨t.syscallStats.total,
      t.syscallStats.len, now, top, t.errorStats.mostCommon none,
      syscallCategories.foldl (jsonCategoryStep t.syscallStats t.syscallStats.total) .empty⟩ := by
  have htop : ∃ top, percentRows (t.syscallStats.mostCommon (some 10)) t.syscallStats.total =
      .ok top := by
    by_cases hne : t.syscallStats.entries = []
    · exact ⟨[], by simp [Dict.mostCommon, hne]; rfl⟩
    · exact ⟨_, percentRows_of_pos (ht.total_pos hne) _⟩
  obtain ⟨top, htop⟩ := htop
  refine ⟨top, ?_⟩
  rw [generateJsonReport, htop, jsonCategories_eq _ fun p hp hpos =>
    Nat.lt_of_lt_of_le hpos (categoryCount_le_total _ hp)]
  rfl

/-! ### Reachable states -/

section Reachable

variable {U : UnicodeClasses} {toFloat : String → Option ℚ}

/-- Every reachable state satisfies the counters' invariant, and `generate_report` never
divides by zero on it. -/
theorem reachable_reportSafe {t : SyscallTracer} (ht : Reachable U toFloat t) : ReportSafe t :=
  (Reachable.inv U toFloat ht).reportSafe

/-- The state after one `read` is reachable and every report on it succeeds. -/
theorem reachable_reportSafe_readLine :
    Reachable .ascii (fun _ => none)
        (parseTraceLine .ascii (fun _ => none) .init "12:00:00.000001 read(3, \"\", 4096) = 0") ∧
      ReportSafe
        (parseTraceLine .ascii (fun _ => none) .init "12:00:00.000001 read(3, \"\", 4096) = 0") :=
  ⟨.line _ .init, reachable_reportSafe (.line _ .init)⟩

/-- The three category computations agree: the visualizer's `category_data` is the text
report's `category_stats`, and the JSON report holds a named category exactly when its
`category_stats` count is positive, with that count. -/
theorem categoryPaths_agree {t : SyscallTracer} (ht : Reachable U toFloat t) (now : String) :
    categoryData t.syscallStats = categoryStats t.syscallStats ∧
      ∃ r, generateJsonReport t t.syscallStats.total now = .ok r ∧
        ∀ c ∈ syscallCategories.map Prod.fst,
          (c ∈ r.categories.keys ↔ 0 < (categoryStats t.syscallStats).getD c) ∧
            ∀ v, r.categories.get? c = some v → v.1 = (categoryStats t.syscallStats).getD c := by
  refine ⟨(categoryData_eq_addAll _).trans (categoryStats_eq_addAll _).symm, ?_⟩
  obtain ⟨top, hr⟩ := generateJsonReport_eq (Reachable.inv U toFloat ht) now
  refine ⟨_, hr, fun c hc => ?_⟩
  obtain ⟨⟨c, ss⟩, hmem, rfl⟩ := List.mem_map.1 hc
  have hget := get?_foldl_jsonCategoryStep t.syscallStats t.syscallStats.total Dict.empty
    (by decide) hmem
  simp only [Dict.mem_keys_iff, hget, getD_categoryStats_of_mem _ hmem]
  split <;> simp_all

/-- After one `read`, the three category computations agree. -/
theorem categoryPaths_agree_readLine :
    let t := parseTraceLine .ascii (fun _ => none) .init "12:00:00.000001 read(3, \"\", 4096) = 0"
    Reachable .ascii (fun _ => none) t ∧
      (categoryData t.syscallStats = categoryStats t.syscallStats ∧
        ∃ r, generateJsonReport t t.syscallStats.total "" = .ok r ∧
          ∀ c ∈ syscallCategories.map Prod.fst,
            (c ∈ r.categories.keys ↔ 0 < (categoryStats t.syscallStats).getD c) ∧
              ∀ v, r.categories.get? c = some v → v.1 = (categoryStats t.syscallStats).getD c) :=
  ⟨.line _ .init, categoryPaths_agree (.line _ .init) ""⟩

end Reachable

section Trace

variable (U : UnicodeClasses) (toFloat : String → Option ℚ)

/-- A call outside the six lists counts in `total_syscalls` but in no category of the JSON
report, which has no `other`. -/
theorem jsonReport_omits_other (now : String) :
    let t : SyscallTracer := parseLines U toFloat
      ["12:00:00.000001 openat(AT_FDCWD, \"/etc/ld.so.cache\", O_RDONLY) = 3"]
    ∃ r, generateJsonReport t t.syscallStats.total now = .ok r ∧ r.totalSyscalls = 1 ∧
      r.categories.entries = [] := by
  obtain ⟨top, hr⟩ := generateJsonReport_eq (Reachable.inv U toFloat
    (reachable_parseLines U toFloat _)) now
  have hstats : (parseLines U toFloat
      ["12:00:00.000001 openat(AT_FDCWD, \"/etc/ld.so.cache\", O_RDONLY) = 3"]).syscallStats =
      Dict.empty.addTo "openat" 1 := rfl
  refine ⟨_, hr, ?_, ?_⟩ <;> dsimp only <;> rw [hstats] <;> decide

/-- `category_stats` answers `get` alike for counters holding the same entries in any order. -/
theorem get?_categoryStats_of_perm {d d' : Dict Nat} (h : d.entries.Perm d'.entries) (c : String) :
    (categoryStats d).get? c = (categoryStats d').get? c := by
  have hkeys : c ∈ (categoryStats d).keys ↔ c ∈ (categoryStats d').keys := by
    simp only [mem_keys_categoryStats, h.mem_iff]
  have hcount : (categoryStats d).getD c = (categoryStats d').getD c := by
    simp only [getD_categoryStats, ((h.filter _).map _).sum_eq]
  rw [Dict.get?_eq, Dict.get?_eq, hcount]
  simp only [hkeys]

/-- Reordering a trace's lines changes neither counter as a map, nor `timing_data` up to
order, nor any total, count of distinct calls, error rate or category count of the
reports. -/
theorem parseLines_perm {L L' : List String} (h : L.Perm L') :
    let t : SyscallTracer := parseLines U toFloat L
    let t' : SyscallTracer := parseLines U toFloat L'
    (∀ n, t.syscallStats.get? n = t'.syscallStats.get? n) ∧
      (∀ n, t.errorStats.get? n = t'.errorStats.get? n) ∧
      t.timingData.Perm t'.timingData ∧
      t.syscallStats.total = t'.syscallStats.total ∧
      t.syscallStats.len = t'.syscallStats.len ∧
      (∀ n, (t.errorStats.getD n : ℚ) / t.syscallStats.getD n =
        (t'.errorStats.getD n : ℚ) / t'.syscallStats.getD n) ∧
      (∀ c, (categoryStats t.syscallStats).get? c = (categoryStats t'.syscallStats).get? c) ∧
      jsonCategories t.syscallStats t.syscallStats.total =
        jsonCategories t'.syscallStats t'.syscallStats.total := by
  intro t t'
  have hi := Reachable.inv U toFloat (reachable_parseLines U toFloat L)
  have hi' := Reachable.inv U toFloat (reachable_parseLines U toFloat L')
  have hcalls : ∀ n, t.syscallStats.getD n = t'.syscallStats.getD n := fun n => by
    simp only [t, t', getD_syscallStats]
    exact ((h.filterMap _).map _).count_eq n
  have herrors : ∀ n, t.errorStats.getD n = t'.errorStats.getD n := fun n => by
    simp only [t, t', getD_errorStats]
    exact (((h.filterMap _).filter _).map _).count_eq n
  have hstats : ∀ n, t.syscallStats.get? n = t'.syscallStats.get? n := fun n => by
    rw [Dict.get?_eq_of_pos hi.stats_pos, Dict.get?_eq_of_pos hi'.stats_pos, hcalls]
  have hperm := Dict.perm_of_get? hstats
  have htotal : t.syscallStats.total = t'.syscallStats.total := (hperm.map _).sum_eq
  refine ⟨hstats, fun n => ?_, ?_, htotal, hperm.length_eq, fun n => by rw [hcalls, herrors],
    get?_categoryStats_of_perm hperm, ?_⟩
  · rw [Dict.get?_eq_of_pos hi.errors_pos, Dict.get?_eq_of_pos hi'.errors_pos, herrors]
  · simp only [t, t', timingData_parseLines, List.Perm.refl]
  · simp only [jsonCategories, categoryCount, funext hcalls, htotal]

/-- A `read` and a `close` line in either order give the same counters and reports. -/
theorem parseLines_perm_swap :
    (["12:00:00.000001 read(3) = 0", "12:00:00.000002 close(3) = 0"].Perm
      ["12:00:00.000002 close(3) = 0", "12:00:00.000001 read(3) = 0"]) ∧
    let t : SyscallTracer := parseLines .ascii (fun _ => none)
      ["12:00:00.000001 read(3) = 0", "12:00:00.000002 close(3) = 0"]
    let t' : SyscallTracer := parseLines .ascii (fun _ => none)
      ["12:00:00.000002 close(3) = 0", "12:00:00.000001 read(3) = 0"]
    (∀ n, t.syscallStats.get? n = t'.syscallStats.get? n) ∧
      (∀ n, t.errorStats.get? n = t'.errorStats.get? n) ∧
      t.timingData.Perm t'.timingData ∧
      t.syscallStats.total = t'.syscallStats.total ∧
      t.syscallStats.len = t'.syscallStats.len ∧
      (∀ n, (t.errorStats.getD n : ℚ) / t.syscallStats.getD n =
        (t'.errorStats.getD n : ℚ) / t'.syscallStats.getD n) ∧
      (∀ c, (categoryStats t.syscallStats).get? c = (categoryStats t'.syscallStats).get? c) ∧
      jsonCategories t.syscallStats t.syscallStats.total =
        jsonCategories t'.syscallStats t'.syscallStats.total :=
  ⟨.swap _ _ _, parseLines_perm .ascii (fun _ => none) (.swap _ _ _)⟩

end Trace

end OsCompas.Tracer
