import Mathlib.Algebra.Order.BigOperators.Group.List
import Mathlib.Algebra.Order.Ring.Nat
import Mathlib.Data.List.Sort

/-!
# Insertion-ordered dictionaries

Python's `dict`, `Counter` and `defaultdict(int)` as used by `syscall_tracer.py`: keys keep
their insertion order, and key uniqueness is a field. `Counter.most_common` is the stable
descending sort CPython documents for it.
-/

namespace OsCompas.Python

/-- A Python `dict` with string keys: its entries in insertion order, each key once. -/
structure Dict (β : Type) where
  entries : List (String × β)
  nodup_keys : (entries.map Prod.fst).Nodup

namespace Dict

variable {β : Type}

/-- Replace the value of `k` in place, or append `(k, v)` when `k` is absent. -/
def setEntries (k : String) (v : β) : List (String × β) → List (String × β)
  | [] => [(k, v)]
  | (j, u) :: es => if j = k then (j, v) :: es else (j, u) :: setEntries k v es

/-- Assignment keeps the keys, appending `k` only when it is new. -/
theorem keys_setEntries (k : String) (v : β) (es : List (String × β)) :
    (setEntries k v es).map Prod.fst =
      if k ∈ es.map Prod.fst then es.map Prod.fst else es.map Prod.fst ++ [k] := by
  induction es with
  | nil => rfl
  | cons e es ih =>
    rcases e with ⟨j, u⟩
    by_cases hj : j = k
    · simp [setEntries, hj]
    · simp only [setEntries, hj, if_false, List.map_cons, ih, List.mem_cons, Ne.symm hj,
        false_or]
      split <;> rfl

/-- The empty dictionary, `Counter()` or `{}`. -/
def empty : Dict β := ⟨[], List.nodup_nil⟩

/-- The keys in insertion order, `list(d)`. -/
def keys (d : Dict β) : List String := d.entries.map Prod.fst

/-- `len(d)`. -/
def len (d : Dict β) : Nat := d.entries.length

/-- `d.get(k)`, with `none` for an absent key. -/
def get? (d : Dict β) (k : String) : Option β := (d.entries.find? (·.1 = k)).map Prod.snd

/-- `d[k] = v`. -/
def set (d : Dict β) (k : String) (v : β) : Dict β :=
  ⟨setEntries k v d.entries, by
    rw [keys_setEntries]
    split
    · exact d.nodup_keys
    · rw [← List.concat_eq_append]
      exact d.nodup_keys.concat ‹_›⟩

/-- The empty dict has no keys. -/
@[simp] theorem keys_empty : (empty : Dict β).keys = [] := rfl

/-- The empty dict holds no key. -/
@[simp] theorem get?_empty (k : String) : (empty : Dict β).get? k = none := rfl

/-- Setting a key keeps the key order and appends a new key at the end. -/
theorem keys_set (d : Dict β) (k : String) (v : β) :
    (d.set k v).keys = if k ∈ d.keys then d.keys else d.keys ++ [k] :=
  keys_setEntries k v d.entries

private theorem find?_setEntries (k j : String) (v : β) (es : List (String × β)) :
    ((setEntries k v es).find? (·.1 = j)).map Prod.snd =
      if j = k then some v else (es.find? (·.1 = j)).map Prod.snd := by
  induction es with
  | nil => by_cases h : j = k <;> simp [setEntries, h, eq_comm]
  | cons e es ih =>
    rcases e with ⟨i, u⟩
    by_cases hi : i = k
    · subst hi
      by_cases h : j = i <;> simp [setEntries, h, eq_comm]
    · by_cases h : i = j
      · subst h
        simp [setEntries, hi, Ne.symm hi]
      · simp [setEntries, hi, h, ih]

/-- Reading after an assignment. -/
@[simp] theorem get?_set (d : Dict β) (k j : String) (v : β) :
    (d.set k v).get? j = if j = k then some v else d.get? j :=
  find?_setEntries k j v d.entries

/-- A key is present exactly when `get` finds a value for it. -/
theorem mem_keys_iff (d : Dict β) (k : String) : k ∈ d.keys ↔ (d.get? k).isSome := by
  simp [keys, get?, List.find?_isSome]

/-- With unique keys, an entry is stored exactly when `get` returns its value. -/
theorem mem_entries_iff (d : Dict β) (k : String) (v : β) :
    (k, v) ∈ d.entries ↔ d.get? k = some v := by
  obtain ⟨es, hnd⟩ := d
  simp only [get?]
  induction es with
  | nil => simp
  | cons e es ih =>
    rcases e with ⟨j, u⟩
    simp only [List.map_cons, List.nodup_cons, List.mem_map] at hnd
    by_cases h : j = k
    · subst h
      have hk : ∀ w, (j, w) ∉ es := fun w hw => hnd.1 ⟨(j, w), hw, rfl⟩
      simp [hk, eq_comm]
    · simp [h, Ne.symm h, ih hnd.2]

/-- Two dictionaries that answer every `get` alike hold the same entries, up to order. -/
theorem perm_of_get? {d₁ d₂ : Dict β} (h : ∀ k, d₁.get? k = d₂.get? k) :
    d₁.entries.Perm d₂.entries := by
  rw [List.perm_ext_iff_of_nodup (d₁.nodup_keys.of_map _) (d₂.nodup_keys.of_map _)]
  rintro ⟨k, v⟩
  rw [mem_entries_iff, mem_entries_iff, h]

/-! ### Counters -/

/-- `d.get(k, 0)`; also `counter[k]`, which reads an absent key as `0` without storing it. -/
def getD (d : Dict Nat) (k : String) : Nat := (d.get? k).getD 0

/-- `d[k] += v` on a `Counter` or a `defaultdict(int)`, that is `d[k] = d.get(k, 0) + v`. -/
def addTo (d : Dict Nat) (k : String) (v : Nat) : Dict Nat := d.set k (d.getD k + v)

/-- `sum(d.values())`. -/
def total (d : Dict Nat) : Nat := (d.entries.map Prod.snd).sum

/-- `Counter.most_common(n)`: the entries by count, descending, equal counts in insertion
order (`sorted(..., reverse=True)` is stable; for a given `n`, CPython's `heapq.nlargest`
is documented equal to the first `n` of that sort). -/
def mostCommon (d : Dict Nat) : Option Nat → List (String × Nat)
  | none => d.entries.mergeSort (fun a b => b.2 ≤ a.2)
  | some n => (d.entries.mergeSort (fun a b => b.2 ≤ a.2)).take n

/-- The empty counter counts `0` of every key. -/
@[simp] theorem getD_empty (k : String) : (empty : Dict Nat).getD k = 0 := rfl

/-- The empty counter's total is `0`. -/
@[simp] theorem total_empty : (empty : Dict Nat).total = 0 := rfl

/-- A counter answers `get` with its count on its keys, and with `none` elsewhere. -/
theorem get?_eq (d : Dict Nat) (k : String) :
    d.get? k = if k ∈ d.keys then some (d.getD k) else none := by
  have hk := mem_keys_iff d k
  cases h : d.get? k <;> simp_all [getD]

/-- No count of a counter exceeds its total. -/
theorem le_total_of_mem {d : Dict Nat} {p : String × Nat} (hp : p ∈ d.entries) :
    p.2 ≤ d.total :=
  List.le_sum_of_mem (List.mem_map_of_mem _ hp)

/-- Adding to a counter changes the count of that key only. -/
@[simp] theorem getD_addTo (d : Dict Nat) (k j : String) (v : Nat) :
    (d.addTo k v).getD j = d.getD j + if j = k then v else 0 := by
  by_cases h : j = k
  · subst h; simp [addTo, getD]
  · simp [addTo, getD, h]

/-- Adding to a key keeps the key order and appends a new key at the end. -/
theorem keys_addTo (d : Dict Nat) (k : String) (v : Nat) :
    (d.addTo k v).keys = if k ∈ d.keys then d.keys else d.keys ++ [k] :=
  keys_set d k _

/-- The keys after adding to a counter: the old ones and the key added to. -/
theorem mem_keys_addTo (d : Dict Nat) (k j : String) (v : Nat) :
    j ∈ (d.addTo k v).keys ↔ j = k ∨ j ∈ d.keys := by
  rw [keys_addTo]
  split <;> simp [or_comm, *]
  exact fun h => h ▸ ‹_›

/-- Adding a positive amount keeps every key of a counter positive. -/
theorem pos_addTo {d : Dict Nat} (h : ∀ n ∈ d.keys, 1 ≤ d.getD n) (k : String) {v : Nat}
    (hv : 1 ≤ v) : ∀ n ∈ (d.addTo k v).keys, 1 ≤ (d.addTo k v).getD n := by
  intro n hn
  rcases (mem_keys_addTo d k n v).1 hn with rfl | hn
  · simp only [getD_addTo, ↓reduceIte]
    omega
  · simpa using Nat.le_add_right_of_le (h n hn)

private theorem total_setEntries (k : String) (v : Nat) (es : List (String × Nat)) :
    ((setEntries k v es).map Prod.snd).sum + ((es.find? (·.1 = k)).map Prod.snd).getD 0 =
      (es.map Prod.snd).sum + v := by
  induction es with
  | nil => simp [setEntries]
  | cons e es ih =>
    rcases e with ⟨j, u⟩
    by_cases h : j = k
    · simp [setEntries, h]; omega
    · simp [setEntries, h]; omega

/-- Adding `v` to a counter adds `v` to its total. -/
@[simp] theorem total_addTo (d : Dict Nat) (k : String) (v : Nat) :
    (d.addTo k v).total = d.total + v := by
  have h := total_setEntries k (d.getD k + v) d.entries
  simp only [addTo, set, total, getD, get?] at h ⊢
  omega

/-- A counter's entries are its keys with their counts. -/
theorem entries_eq_map_keys (d : Dict Nat) : d.entries = d.keys.map fun k => (k, d.getD k) := by
  conv_lhs => rw [← List.map_id d.entries]
  rw [keys, List.map_map]
  refine List.map_congr_left fun p hp => ?_
  simp [getD, (mem_entries_iff d p.1 p.2).1 hp]

/-- A counter counts `0` of a key it does not hold. -/
theorem getD_of_not_mem {d : Dict Nat} {k : String} (h : k ∉ d.keys) : d.getD k = 0 := by
  rw [getD, get?_eq, if_neg h]
  rfl

/-- No key's count exceeds the counter's total. -/
theorem getD_le_total (d : Dict Nat) (k : String) : d.getD k ≤ d.total := by
  by_cases hk : k ∈ d.keys
  · have hp : (k, d.getD k) ∈ d.entries := by
      rw [mem_entries_iff, get?_eq, if_pos hk]
    exact le_total_of_mem hp
  · rw [getD_of_not_mem hk]
    exact Nat.zero_le _

/-- In a counter whose stored counts are positive, the keys are the names with a positive
count. -/
theorem get?_eq_of_pos {d : Dict Nat} (hd : ∀ k ∈ d.keys, 0 < d.getD k) (k : String) :
    d.get? k = if 0 < d.getD k then some (d.getD k) else none := by
  rw [get?_eq]
  by_cases hk : k ∈ d.keys
  · simp [hk, hd k hk]
  · simp [hk, getD_of_not_mem hk]

/-- Summing the counts of a list `S` of distinct keys, absent keys counting zero, sums the
entries whose key is in `S`. -/
theorem sum_map_getD (d : Dict Nat) {S : List String} (hS : S.Nodup) :
    (S.map d.getD).sum = ((d.entries.filter (·.1 ∈ S)).map Prod.snd).sum := by
  have hdrop : (S.map d.getD).sum = ((S.filter (· ∈ d.keys)).map d.getD).sum := by
    induction S with
    | nil => rfl
    | cons s S ih =>
      by_cases hs : s ∈ d.keys
      · simp [hs, ih hS.of_cons]
      · simp [hs, getD_of_not_mem hs, ih hS.of_cons]
  have hperm : (S.filter (· ∈ d.keys)).Perm (d.keys.filter (· ∈ S)) :=
    (List.perm_ext_iff_of_nodup (hS.filter _) (d.nodup_keys.filter _)).2 fun k => by
      simp only [List.mem_filter, decide_eq_true_eq]
      exact and_comm
  rw [hdrop, (hperm.map _).sum_eq, entries_eq_map_keys, List.filter_map, List.map_map]
  rfl

/-! ### Folds of additions -/

section FoldAddTo

variable {α : Type} (key : α → String) (val : α → Nat)

/-- Counting with one `d[key(x)] += val(x)` per element `x`. -/
def addAll (d : Dict Nat) (xs : List α) : Dict Nat :=
  xs.foldl (fun acc x => acc.addTo (key x) (val x)) d

/-- Adding a list's values raises each key's count by the values of that key. -/
@[simp] theorem getD_addAll (d : Dict Nat) (xs : List α) (k : String) :
    (addAll key val d xs).getD k = d.getD k + ((xs.filter (key · = k)).map val).sum := by
  induction xs generalizing d with
  | nil => simp [addAll]
  | cons x xs ih =>
    simp only [addAll, List.foldl_cons] at ih ⊢
    rw [ih]
    by_cases h : key x = k
    · simp [h, Nat.add_assoc]
    · simp [h, Ne.symm h]

/-- The keys after adding a list are the old keys and the keys of its elements. -/
theorem mem_keys_addAll (d : Dict Nat) (xs : List α) (k : String) :
    k ∈ (addAll key val d xs).keys ↔ k ∈ d.keys ∨ ∃ x ∈ xs, key x = k := by
  induction xs generalizing d with
  | nil => simp [addAll]
  | cons x xs ih =>
    simp only [addAll, List.foldl_cons] at ih ⊢
    rw [ih, mem_keys_addTo]
    simp only [List.mem_cons, exists_eq_or_imp, @eq_comm _ k, or_left_comm, or_assoc]

/-- Adding a list's values raises the total by their sum. -/
@[simp] theorem total_addAll (d : Dict Nat) (xs : List α) :
    (addAll key val d xs).total = d.total + (xs.map val).sum := by
  induction xs generalizing d with
  | nil => simp [addAll]
  | cons x xs ih =>
    simp only [addAll, List.foldl_cons] at ih ⊢
    rw [ih, total_addTo, List.map_cons, List.sum_cons, Nat.add_assoc]

end FoldAddTo

/-- The entries of `most_common()` are those of the counter, reordered. -/
theorem mostCommon_perm (d : Dict Nat) : (d.mostCommon none).Perm d.entries :=
  List.mergeSort_perm _ _

private theorem countLE_trans (a b c : String × Nat) (hab : decide (b.2 ≤ a.2) = true)
    (hbc : decide (c.2 ≤ b.2) = true) : decide (c.2 ≤ a.2) = true := by
  simp only [decide_eq_true_eq] at *; omega

private theorem countLE_total (a b : String × Nat) :
    (decide (b.2 ≤ a.2) || decide (a.2 ≤ b.2)) = true := by
  simp only [Bool.or_eq_true, decide_eq_true_eq]; omega

/-- Every pair `most_common` returns is an entry of the counter. -/
theorem mem_of_mem_mostCommon {d : Dict Nat} {n : Option Nat} {p : String × Nat}
    (hp : p ∈ d.mostCommon n) : p ∈ d.entries := by
  cases n with
  | none => exact (mostCommon_perm d).subset hp
  | some n => exact (mostCommon_perm d).subset (List.mem_of_mem_take hp)

/-- `most_common()` lists counts in descending order. -/
theorem mostCommon_sorted (d : Dict Nat) : (d.mostCommon none).Pairwise (fun a b => b.2 ≤ a.2) :=
  (List.sorted_mergeSort countLE_trans countLE_total d.entries).imp (by simp)

/-- `most_common()` is stable: the entries of one count keep their insertion order. -/
theorem filter_mostCommon (d : Dict Nat) (v : Nat) :
    (d.mostCommon none).filter (·.2 = v) = d.entries.filter (·.2 = v) := by
  have hsub : (d.entries.filter (·.2 = v)).Sublist (d.mostCommon none) := by
    refine List.sublist_mergeSort countLE_trans countLE_total ?_ (List.filter_sublist _)
    refine List.Pairwise.imp_of_mem ?_ (List.pairwise_of_forall fun _ _ => trivial)
    intro a b ha hb _
    simp only [List.mem_filter, decide_eq_true_eq] at ha hb
    simp [ha.2, hb.2]
  have hsub' := hsub.filter (·.2 = v)
  simp only [List.filter_filter, Bool.and_self] at hsub'
  exact (hsub'.eq_of_length (((mostCommon_perm d).filter _).length_eq.symm)).symm

end Dict

end OsCompas.Python
