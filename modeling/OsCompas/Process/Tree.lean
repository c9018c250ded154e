import Mathlib.Data.Finset.Card
import Mathlib.Logic.Relation

/-!
# The process tree

`display_process_tree` and `_display_tree_node`, `process_manager.py:43–94`, over a finite
map from each pid to its children, with `fuel` for the recursion depth. With more levels
than pids the recursion returns and prints each pid reachable from the root exactly once.
-/

namespace OsCompas.Process

/-- The process table `_display_tree_node` reads through psutil: the children of each pid,
as a finite map; a pid it does not list has none. -/
structure ProcTable where
  entries : List (Nat × List Nat)

namespace ProcTable

/-- `psutil.Process(pid).children()`, as pids. -/
def children (t : ProcTable) (pid : Nat) : List Nat :=
  ((t.entries.find? (·.1 = pid)).map Prod.snd).getD []

/-- The pids the table names, and `root`. -/
def pids (t : ProcTable) (root : Nat) : Finset Nat :=
  insert root (t.entries.flatMap fun e => e.1 :: e.2).toFinset

/-- `q` is reachable from `p` through a chain of children, possibly empty. -/
def Reaches (t : ProcTable) : Nat → Nat → Prop :=
  Relation.ReflTransGen fun p q => q ∈ t.children p

/-- The root is one of the pids the table reaches from it. -/
theorem root_mem_pids (t : ProcTable) (root : Nat) : root ∈ t.pids root :=
  Finset.mem_insert_self _ _

/-- Every child the table gives is one of its pids. -/
theorem mem_pids_of_mem_children (t : ProcTable) (root : Nat) {p c : Nat}
    (hc : c ∈ t.children p) : c ∈ t.pids root := by
  unfold children at hc
  cases he : t.entries.find? (·.1 = p) with
  | none => simp [he] at hc
  | some e =>
    simp only [he, Option.map_some', Option.getD_some] at hc
    exact Finset.mem_insert_of_mem (List.mem_toFinset.2 (List.mem_flatMap.2
      ⟨e, List.mem_of_find?_eq_some he, List.mem_cons_of_mem _ hc⟩))

end ProcTable

/-- A line `_display_tree_node` prints, `f"{prefix}{pid} {display_name} [CPU: …, MEM: …]"`:
its tree prefix and its pid. -/
structure Line where
  linePrefix : String
  pid : Nat

/-- What a call reads and leaves: the shared `visited` set and the lines printed so far. -/
structure Display where
  visited : Finset Nat
  printed : List Line

/-- `visited.add(pid)` and the `print` of the pid's line, lines 59 and 78. -/
def Display.visit (d : Display) (linePrefix : String) (pid : Nat) : Display :=
  ⟨insert pid d.visited, d.printed ++ [⟨linePrefix, pid⟩]⟩

/-- The prefixes of the child at index `i` of `n` children, lines 84–89: the last child
hangs from `└── `, the others from `├── `. -/
def childPrefixes (childrenPrefix : String) (n i : Nat) : String × String :=
  if i = n - 1 then (childrenPrefix ++ "└── ", childrenPrefix ++ "    ")
  else (childrenPrefix ++ "├── ", childrenPrefix ++ "│   ")

/-- `_display_tree_node`, lines 53–94, with `fuel` levels of recursion; `none` when they run
out. -/
def displayTreeNode (t : ProcTable) : Nat → Nat → String → String → Display → Option Display
  | 0, _, _, _, _ => none
  | fuel + 1, pid, linePrefix, childrenPrefix, d =>
    if pid ∈ d.visited then some d
    else
      let children := t.children pid
      children.enum.foldlM
        (fun d ic =>
          let prefixes := childPrefixes childrenPrefix children.length ic.1
          displayTreeNode t fuel ic.2 prefixes.1 prefixes.2 d)
        (d.visit linePrefix pid)

/-! ### One call -/

/-- What a call may do to the state, with `B` the pids it may newly visit: `visited` only
grows, within `B`; each pid it newly visits has all its children visited by the end; and
it prints one line for each newly visited pid, in the order of their visits. -/
structure Grows (t : ProcTable) (B : Nat → Prop) (d d' : Display) : Prop where
  mono : d.visited ⊆ d'.visited
  bound : ∀ q ∈ d'.visited, q ∉ d.visited → B q
  closed : ∀ q ∈ d'.visited, q ∉ d.visited → ∀ c ∈ t.children q, c ∈ d'.visited
  printed : ∃ new, d'.printed = d.printed ++ new ∧ (new.map Line.pid).Nodup ∧
    ∀ q, q ∈ new.map Line.pid ↔ q ∈ d'.visited ∧ q ∉ d.visited

namespace Grows

variable {t : ProcTable} {B : Nat → Prop} {d d' d'' : Display}

/-- A display grows into itself. -/
theorem refl (d : Display) : Grows t B d d :=
  ⟨subset_rfl, fun _ hq hq' => absurd hq hq', fun _ hq hq' => absurd hq hq',
    ⟨[], by simp, List.nodup_nil, by simp⟩⟩

/-- Growth of a display composes. -/
theorem trans (h : Grows t B d d') (h' : Grows t B d' d'') : Grows t B d d'' := by
  obtain ⟨new, hnew, hnd, hmem⟩ := h.printed
  obtain ⟨new', hnew', hnd', hmem'⟩ := h'.printed
  refine ⟨h.mono.trans h'.mono, fun q hq hqd => ?_, fun q hq hqd => ?_,
    ⟨new ++ new', by rw [hnew', hnew, List.append_assoc], ?_, fun q => ?_⟩⟩
  · by_cases hq' : q ∈ d'.visited
    · exact h.bound q hq' hqd
    · exact h'.bound q hq hq'
  · by_cases hq' : q ∈ d'.visited
    · exact fun c hc => h'.mono (h.closed q hq' hqd c hc)
    · exact h'.closed q hq hq'
  · rw [List.map_append, List.nodup_append]
    exact ⟨hnd, hnd', fun a ha hb => ((hmem' a).1 hb).2 ((hmem a).1 ha).1⟩
  · rw [List.map_append, List.mem_append, hmem, hmem']
    by_cases hq' : q ∈ d'.visited
    · simp [hq', h'.mono hq']
    · have hqd : q ∉ d.visited := fun hd => hq' (h.mono hd)
      simp [hq', hqd]

/-- Growth within a bound is growth within any weaker bound. -/
theorem weaken {B' : Nat → Prop} (h : Grows t B d d') (hB : ∀ q, B q → B' q) :
    Grows t B' d d' :=
  ⟨h.mono, fun q hq hqd => hB q (h.bound q hq hqd), h.closed, h.printed⟩

/-- Visiting a fresh `pid` and then running a loop that visits all its children is a call
on `pid`. -/
theorem of_visit {lp : String} {pid : Nat} (hpid : pid ∉ d.visited)
    (h : Grows t B (d.visit lp pid) d') (hB : B pid) (hc : ∀ c ∈ t.children pid, c ∈ d'.visited) :
    Grows t B d d' := by
  obtain ⟨new, hnew, hnd, hmem⟩ := h.printed
  have hvis : pid ∈ d'.visited := h.mono (Finset.mem_insert_self _ _)
  refine ⟨(Finset.subset_insert _ _).trans h.mono, fun q hq hqd => ?_, fun q hq hqd => ?_,
    ⟨⟨lp, pid⟩ :: new, by rw [hnew]; simp [Display.visit], ?_, fun q => ?_⟩⟩
  · by_cases hqp : q = pid
    · exact hqp ▸ hB
    · exact h.bound q hq (by simp [Display.visit, hqp, hqd])
  · by_cases hqp : q = pid
    · exact hqp ▸ hc
    · exact h.closed q hq (by simp [Display.visit, hqp, hqd])
  · refine List.nodup_cons.2 ⟨fun hp => ?_, hnd⟩
    exact ((hmem pid).1 hp).2 (Finset.mem_insert_self _ _)
  · simp only [List.map_cons, List.mem_cons, hmem, Display.visit, Finset.mem_insert, not_or]
    by_cases hqp : q = pid
    · simp [hqp, hvis, hpid]
    · simp [hqp]

end Grows

/-- A loop in `Option` whose every step relates its states by a reflexive, transitive `Q`
and establishes `P x`, which later steps keep, relates its first and last states by `Q` and
leaves `P x` for every element. -/
theorem foldlM_rel {σ α : Type} (Q : σ → σ → Prop) (P : α → σ → Prop) {f : σ → α → Option σ}
    (hrefl : ∀ s, Q s s) (htrans : ∀ {a b c}, Q a b → Q b c → Q a c)
    (hkeep : ∀ {x s s'}, P x s → Q s s' → P x s') :
    ∀ {l : List α} {s s' : σ}, (∀ x ∈ l, ∀ s s', f s x = some s' → Q s s' ∧ P x s') →
      l.foldlM f s = some s' → Q s s' ∧ ∀ x ∈ l, P x s'
  | [], s, _, _, h => by cases h; exact ⟨hrefl s, by simp⟩
  | x :: l, s, s', hf, h => by
    rw [List.foldlM_cons] at h
    cases hx : f s x with
    | none => rw [hx] at h; cases h
    | some s₁ =>
      rw [hx] at h
      obtain ⟨hQ, hP⟩ := foldlM_rel Q P hrefl htrans hkeep
        (fun y hy => hf y (List.mem_cons_of_mem _ hy)) h
      obtain ⟨hQ₁, hP₁⟩ := hf x (List.mem_cons_self _ _) s s₁ hx
      refine ⟨htrans hQ₁ hQ, fun y hy => ?_⟩
      rcases List.mem_cons.1 hy with rfl | hy
      · exact hkeep hP₁ hQ
      · exact hP y hy

/-- A call that returns grows the state within the pids reachable from `pid`, and leaves
`pid` visited. -/
theorem displayTreeNode_grows {t : ProcTable} {fuel pid : Nat} {lp cp : String}
    {d d' : Display} (h : displayTreeNode t fuel pid lp cp d = some d') :
    Grows t (t.Reaches pid) d d' ∧ pid ∈ d'.visited := by
  induction fuel generalizing pid lp cp d d' with
  | zero => cases h
  | succ fuel ih =>
    simp only [displayTreeNode] at h
    split at h
    · cases h
      exact ⟨.refl d, ‹_›⟩
    · rename_i hpid
      obtain ⟨hQ, hP⟩ := foldlM_rel (Grows t (t.Reaches pid)) (fun ic d => ic.2 ∈ d.visited)
        Grows.refl (fun h h' => h.trans h') (fun hx hQ => hQ.mono hx) (fun ic hic s s' hs => by
          obtain ⟨hg, hc⟩ := ih hs
          have hchild : ic.2 ∈ t.children pid := List.snd_mem_of_mem_enum hic
          exact ⟨hg.weaken fun q hq => Relation.ReflTransGen.head hchild hq, hc⟩) h
      refine ⟨Grows.of_visit hpid hQ .refl fun c hc => ?_, hQ.mono (Finset.mem_insert_self _ _)⟩
      obtain ⟨i, hi, rfl⟩ := List.mem_iff_getElem.1 hc
      exact hP (i, _) (List.mem_enum_iff_getElem?.2 (List.getElem?_eq_getElem hi))

/-- A loop in `Option` returns when each of its steps returns from every state that satisfies
`I`, and keeps `I`. -/
theorem foldlM_isSome {σ α : Type} (I : σ → Prop) {f : σ → α → Option σ} :
    ∀ {l : List α} {s : σ}, (∀ x ∈ l, ∀ s, I s → ∃ s', f s x = some s' ∧ I s') → I s →
      ∃ s', l.foldlM f s = some s'
  | [], s, _, _ => ⟨s, rfl⟩
  | x :: l, s, hf, hs => by
    obtain ⟨s₁, hx, hs₁⟩ := hf x (List.mem_cons_self _ _) s hs
    rw [List.foldlM_cons, hx]
    exact foldlM_isSome I (fun y hy => hf y (List.mem_cons_of_mem _ hy)) hs₁

/-- Visiting a fresh pid of the table leaves one unvisited pid fewer. -/
theorem card_sdiff_visit {t : ProcTable} {root pid : Nat} {d : Display} (lp : String)
    (hpid : pid ∈ t.pids root) (hfresh : pid ∉ d.visited) :
    (t.pids root \ (d.visit lp pid).visited).card + 1 = (t.pids root \ d.visited).card := by
  have hmem : pid ∈ t.pids root \ d.visited := Finset.mem_sdiff.2 ⟨hpid, hfresh⟩
  rw [Display.visit, Finset.sdiff_insert, Finset.card_erase_of_mem hmem]
  have := Finset.card_pos.2 ⟨pid, hmem⟩
  omega

/-- With more levels than the table has unvisited pids, a call on one of its pids returns. -/
theorem displayTreeNode_isSome {t : ProcTable} {root fuel : Nat} (pid : Nat) (lp cp : String)
    (d : Display) (hpid : pid ∈ t.pids root) (hfuel : (t.pids root \ d.visited).card < fuel) :
    ∃ d', displayTreeNode t fuel pid lp cp d = some d' := by
  induction fuel generalizing pid lp cp d with
  | zero => exact absurd hfuel (Nat.not_lt_zero _)
  | succ fuel ih =>
    simp only [displayTreeNode]
    split
    · exact ⟨d, rfl⟩
    · rename_i hfresh
      have hcard := card_sdiff_visit lp hpid hfresh
      refine foldlM_isSome (fun s => (d.visit lp pid).visited ⊆ s.visited)
        (fun ic hic s hs => ?_) subset_rfl
      have hlt : (t.pids root \ s.visited).card < fuel :=
        lt_of_le_of_lt (Finset.card_le_card (Finset.sdiff_subset_sdiff subset_rfl hs)) (by omega)
      obtain ⟨s', hs'⟩ := ih ic.2 _ _ s
        (t.mem_pids_of_mem_children root (List.snd_mem_of_mem_enum hic)) hlt
      exact ⟨s', hs', hs.trans (displayTreeNode_grows hs').1.mono⟩

/-- A call on `root` from a fresh `visited`, after whatever was printed before: it returns
with `visited` the pids reachable from `root`, and adds one line for each of them. -/
theorem displayTreeNode_fresh (t : ProcTable) (root fuel : Nat) (printed : List Line)
    (hfuel : (t.pids root).card < fuel) :
    ∃ d new, displayTreeNode t fuel root "" "" ⟨∅, printed⟩ = some d ∧
      d.printed = printed ++ new ∧ (new.map Line.pid).Nodup ∧
      (∀ p, p ∈ new.map Line.pid ↔ t.Reaches root p) ∧
      ∀ p, p ∈ d.visited ↔ t.Reaches root p := by
  obtain ⟨d, hd⟩ := displayTreeNode_isSome root "" "" ⟨∅, printed⟩ (t.root_mem_pids root)
    (by simpa using hfuel)
  obtain ⟨hg, hroot⟩ := displayTreeNode_grows hd
  have hvis : ∀ p, p ∈ d.visited ↔ t.Reaches root p := fun p =>
    ⟨fun hp => hg.bound p hp (Finset.not_mem_empty p), fun hr => by
      induction hr with
      | refl => exact hroot
      | tail _ hc ih => exact hg.closed _ ih (Finset.not_mem_empty _) _ hc⟩
  obtain ⟨new, hnew, hnd, hmem⟩ := hg.printed
  exact ⟨d, new, hd, hnew, hnd, fun p => by simpa [hvis] using hmem p, hvis⟩

/-- `_display_tree_node(root, "", "", show_cmdline, set())` on a finite process table, cycles,
self-loops and shared children included: given more levels of recursion than the table
has pids, it returns, it prints a line for each pid reachable from `root` and for no other,
each pid once, and it leaves `visited` equal to the pids reachable from `root`. -/
theorem displayTreeNode_reachable (t : ProcTable) (root fuel : Nat)
    (hfuel : (t.pids root).card < fuel) :
    ∃ d, displayTreeNode t fuel root "" "" ⟨∅, []⟩ = some d ∧
      (d.printed.map Line.pid).Nodup ∧
      (∀ p, p ∈ d.printed.map Line.pid ↔ t.Reaches root p) ∧
      ∀ p, p ∈ d.visited ↔ t.Reaches root p := by
  obtain ⟨d, new, hd, hnew, hnd, hmem, hvis⟩ := displayTreeNode_fresh t root fuel [] hfuel
  rw [List.nil_append] at hnew
  exact ⟨d, hd, hnew ▸ hnd, hnew ▸ hmem, hvis⟩

/-- On a table with a cycle back to the root and a self-loop, `_display_tree_node` prints each
reachable pid once. -/
theorem displayTreeNode_reachable_cycle :
    let t : ProcTable := ⟨[(1, [2, 3]), (2, [1, 3, 4]), (3, [3])]⟩
    (t.pids 1).card < 5 ∧
      ∃ d, displayTreeNode t 5 1 "" "" ⟨∅, []⟩ = some d ∧
        (d.printed.map Line.pid).Nodup ∧
        (∀ p, p ∈ d.printed.map Line.pid ↔ t.Reaches 1 p) ∧
        ∀ p, p ∈ d.visited ↔ t.Reaches 1 p :=
  ⟨by decide, displayTreeNode_reachable _ 1 5 (by decide)⟩

example :
    ((displayTreeNode ⟨[(1, [2, 3]), (2, [1, 3, 4]), (3, [3])]⟩ 5 1 "" "" ⟨∅, []⟩).map
      fun d => d.printed.map fun l => (l.linePrefix, l.pid)) =
      some [("", 1), ("├── ", 2), ("│   ├── ", 3), ("│   └── ", 4)] := by
  decide

/-! ### `display_process_tree` -/

/-- `display_process_tree`, lines 43–51, once `get_process_tree` has found the roots: the tree
of each root from a fresh `set()`, printed one after another. -/
def displayProcessTree (t : ProcTable) (fuel : Nat) (roots : List Nat) : Option (List Line) :=
  roots.foldlM
    (fun printed root => (displayTreeNode t fuel root "" "" ⟨∅, printed⟩).map Display.printed) []

/-- `display_process_tree` prints one block per root, in order; each block holds the pids
reachable from its root, each once. A pid reachable from two roots is in both blocks. -/
theorem displayProcessTree_blocks (t : ProcTable) (fuel : Nat) (roots : List Nat)
    (hfuel : ∀ r ∈ roots, (t.pids r).card < fuel) :
    ∃ blocks : List (List Line), displayProcessTree t fuel roots = some blocks.flatten ∧
      List.Forall₂ (fun r b => (b.map Line.pid).Nodup ∧ ∀ p, p ∈ b.map Line.pid ↔ t.Reaches r p)
        roots blocks := by
  suffices h : ∀ printed, ∃ blocks : List (List Line),
      roots.foldlM (fun printed root =>
        (displayTreeNode t fuel root "" "" ⟨∅, printed⟩).map Display.printed) printed =
        some (printed ++ blocks.flatten) ∧
      List.Forall₂ (fun r b => (b.map Line.pid).Nodup ∧ ∀ p, p ∈ b.map Line.pid ↔ t.Reaches r p)
        roots blocks from h []
  induction roots with
  | nil => exact fun printed => ⟨[], by simp, .nil⟩
  | cons r roots ih =>
    intro printed
    obtain ⟨d, new, hd, hnew, hnd, hmem, -⟩ :=
      displayTreeNode_fresh t r fuel printed (hfuel r (List.mem_cons_self _ _))
    obtain ⟨blocks, hrest, hall⟩ :=
      ih (fun r' hr' => hfuel r' (List.mem_cons_of_mem _ hr')) (printed ++ new)
    refine ⟨new :: blocks, ?_, .cons ⟨hnd, hmem⟩ hall⟩
    rw [List.foldlM_cons, hd]
    simpa [hnew] using hrest

end OsCompas.Process
