import OsCompas.Process.Snapshot

/-!
# The process tree of the monitor

`ProcessMonitor.show_process_tree` and `_print_tree`, `process_monitor.py:156–184`.
`_print_tree` keeps no `visited` set: it returns exactly when no cycle of children is
reachable, and where it prints no pid twice it prints the pids of `_display_tree_node`
in the same order.
-/

namespace OsCompas.Process

/-- `p` reaches itself through one or more children. -/
def ProcTable.OnCycle (t : ProcTable) (p : Nat) : Prop :=
  Relation.TransGen (fun p q => q ∈ t.children p) p p

/-- `_print_tree(process, indent)`, lines 170–184, with `fuel` levels of recursion; `none`
where they run out and Python raises `RecursionError`. Each line is the indent and pid of
`f"{indent}├─ {name} ({pid})"`. -/
def printTree (t : ProcTable) : Nat → Nat → String → Option (List Line)
  | 0, _, _ => none
  | fuel + 1, pid, indent =>
    let children := t.children pid
    children.enum.foldlM
      (fun printed ic =>
        (printTree t fuel ic.2
          (if ic.1 = children.length - 1 then indent ++ "    " else indent ++ "│   ")).map
          (printed ++ ·))
      [⟨indent, pid⟩]

/-- `show_process_tree(pid)`, lines 156–168: the tree from `pid`, `1` by default; for a pid
that is not listed, the error message of line 168 and no tree line. -/
def showProcessTree (s : Snapshot) (fuel : Nat) (pid : Option Nat) : Option (List Line) :=
  let pid := pid.getD 1
  if pid ∈ s.pids then printTree s.table fuel pid "" else some []

/-- The indent `_print_tree` gives a child is the `children_prefix` `_display_tree_node`
gives it. -/
theorem childIndent_eq (indent : String) (n i : Nat) :
    (if i = n - 1 then indent ++ "    " else indent ++ "│   ") = (childPrefixes indent n i).2 := by
  unfold childPrefixes
  split <;> rfl

/-! ### Loops that collect lines -/

section Collect

variable {α β : Type} {g : α → Option (List β)}

/-- A loop that appends what each step returns collects the steps' results in order. -/
theorem foldlM_append_eq_mapM :
    ∀ (l : List α) (init : List β),
      l.foldlM (fun acc x => (g x).map (acc ++ ·)) init = (l.mapM g).map (init ++ ·.flatten)
  | [], init => by
    rw [List.foldlM_nil, List.mapM_nil]
    exact congrArg some (List.append_nil init).symm
  | x :: l, init => by
    rw [List.foldlM_cons, List.mapM_cons]
    cases g x with
    | none => rfl
    | some ys =>
      show l.foldlM _ (init ++ ys) = _
      rw [foldlM_append_eq_mapM l]
      cases l.mapM g with
      | none => rfl
      | some ls => exact congrArg some (List.append_assoc _ _ _)

/-- A successful `mapM` relates each element to its image. -/
theorem forall₂_of_mapM : ∀ {l : List α} {ls : List (List β)}, l.mapM g = some ls →
    List.Forall₂ (fun x ys => g x = some ys) l ls
  | [], ls, h => by cases h; exact .nil
  | x :: l, ls, h => by
    rw [List.mapM_cons] at h
    cases hx : g x with
    | none => rw [hx] at h; cases h
    | some ys =>
      cases hl : l.mapM g with
      | none => rw [hx, hl] at h; cases h
      | some ls' =>
        rw [hx, hl] at h
        cases h
        exact .cons hx (forall₂_of_mapM hl)

/-- One failing element makes the whole `mapM` fail. -/
theorem mapM_eq_none {x : α} : ∀ {l : List α}, x ∈ l → g x = none → l.mapM g = none
  | y :: l, hx, hg => by
    rw [List.mapM_cons]
    rcases List.mem_cons.1 hx with rfl | hx
    · rw [hg]; rfl
    · rw [mapM_eq_none hx hg]
      cases g y <;> rfl

/-- A `mapM` succeeds when it succeeds on every element. -/
theorem exists_mapM_eq_some : ∀ {l : List α}, (∀ x ∈ l, ∃ ys, g x = some ys) →
    ∃ ls, l.mapM g = some ls
  | [], _ => ⟨[], rfl⟩
  | x :: l, h => by
    obtain ⟨ys, hys⟩ := h x (List.mem_cons_self _ _)
    obtain ⟨ls, hls⟩ := exists_mapM_eq_some fun y hy => h y (List.mem_cons_of_mem _ hy)
    exact ⟨ys :: ls, by rw [List.mapM_cons, hys, hls]; rfl⟩

end Collect

/-- A relation between two lists carries over to a weaker one that holds on the left list's
members. -/
theorem forall₂_imp_of_mem {α γ : Type} {R S : α → γ → Prop} :
    ∀ {l : List α} {l' : List γ}, (∀ a ∈ l, ∀ b, R a b → S a b) → List.Forall₂ R l l' →
      List.Forall₂ S l l'
  | _, _, _, .nil => .nil
  | _, _, hRS, .cons hab h => .cons (hRS _ (List.mem_cons_self _ _) _ hab)
      (forall₂_imp_of_mem (fun a ha => hRS a (List.mem_cons_of_mem _ ha)) h)

/-- `_print_tree` prints its pid, then the tree of each child in order. -/
theorem printTree_succ (t : ProcTable) (fuel pid : Nat) (indent : String) :
    printTree t (fuel + 1) pid indent =
      ((t.children pid).enum.mapM fun ic =>
        printTree t fuel ic.2 (childPrefixes indent (t.children pid).length ic.1).2).map
        fun ls => ⟨indent, pid⟩ :: ls.flatten := by
  simp only [printTree, childIndent_eq]
  exact foldlM_append_eq_mapM _ _

/-- Every member of a list has an index in its `enumerate`. -/
theorem mem_enum_of_mem {l : List Nat} {c : Nat} (hc : c ∈ l) : ∃ i, (i, c) ∈ l.enum := by
  obtain ⟨i, hi, rfl⟩ := List.mem_iff_getElem.1 hc
  exact ⟨i, List.mem_enum_iff_getElem?.2 (List.getElem?_eq_getElem hi)⟩

/-! ### When `_print_tree` returns -/

namespace ProcTable

variable {t : ProcTable}

/-- A pid that reaches a pid on a cycle has a child that reaches it. -/
theorem exists_child_reaches {pid p : Nat} (hp : t.Reaches pid p) (hcyc : t.OnCycle p) :
    ∃ c ∈ t.children pid, t.Reaches c p := by
  rcases hp.cases_head with rfl | ⟨c, hc, hcp⟩
  · exact Relation.TransGen.head'_iff.1 hcyc
  · exact ⟨c, hc, hcp⟩

/-- What a pid reaches from `root` is one of the table's pids. -/
theorem mem_pids_of_reaches {root p : Nat} (h : t.Reaches root p) : p ∈ t.pids root := by
  induction h with
  | refl => exact t.root_mem_pids root
  | tail _ hc _ => exact t.mem_pids_of_mem_children root hc

end ProcTable

/-- Below a cycle `_print_tree` never returns, whatever the recursion limit. -/
theorem printTree_eq_none {t : ProcTable} {p : Nat} (hcyc : t.OnCycle p) :
    ∀ {fuel pid : Nat} {indent : String}, t.Reaches pid p → printTree t fuel pid indent = none
  | 0, _, _, _ => rfl
  | fuel + 1, pid, indent, hp => by
    obtain ⟨c, hc, hcp⟩ := t.exists_child_reaches hp hcyc
    obtain ⟨i, hi⟩ := mem_enum_of_mem hc
    rw [printTree_succ, mapM_eq_none hi (printTree_eq_none hcyc hcp)]
    rfl

/-- With no cycle below the root and more levels than the table has pids, `_print_tree`
returns. -/
theorem printTree_isSome {t : ProcTable} {root fuel : Nat} (indent : String)
    (hacyc : ∀ p, t.Reaches root p → ¬ t.OnCycle p) (hfuel : (t.pids root).card < fuel) :
    ∃ lines, printTree t fuel root indent = some lines := by
  classical
  suffices key : ∀ fuel pid (indent : String), t.Reaches root pid →
      ((t.pids root).filter (t.Reaches pid ·)).card < fuel →
      ∃ lines, printTree t fuel pid indent = some lines from
    key fuel root indent .refl (lt_of_le_of_lt (Finset.card_filter_le _ _) hfuel)
  intro fuel
  induction fuel with
  | zero => exact fun _ _ _ h => absurd h (Nat.not_lt_zero _)
  | succ fuel ih =>
    intro pid indent hroot hcard
    have hchildren : ∀ ic ∈ (t.children pid).enum, ∃ ys,
        printTree t fuel ic.2 (childPrefixes indent (t.children pid).length ic.1).2 = some ys := by
      intro ic hic
      have hc : ic.2 ∈ t.children pid := List.snd_mem_of_mem_enum hic
      have hsub : (t.pids root).filter (t.Reaches ic.2 ·) ⊂
          (t.pids root).filter (t.Reaches pid ·) := by
        refine (Finset.ssubset_iff_of_subset fun x hx => ?_).2 ⟨pid, ?_, fun hx => ?_⟩
        · simp only [Finset.mem_filter] at hx ⊢
          exact ⟨hx.1, Relation.ReflTransGen.head hc hx.2⟩
        · exact Finset.mem_filter.2 ⟨ProcTable.mem_pids_of_reaches hroot, .refl⟩
        · exact hacyc pid hroot (Relation.TransGen.head' hc (Finset.mem_filter.1 hx).2)
      exact ih _ _ (hroot.tail hc) (by have := Finset.card_lt_card hsub; omega)
    obtain ⟨ls, hls⟩ := exists_mapM_eq_some hchildren
    exact ⟨_, by rw [printTree_succ, hls]; rfl⟩

/-- `_print_tree` returns, for some recursion limit, exactly when no cycle of children is
reachable from its root; where one is, every limit ends in `RecursionError`. -/
theorem printTree_returns_iff (t : ProcTable) (root : Nat) (indent : String) :
    (∃ fuel, (printTree t fuel root indent).isSome) ↔ ∀ p, t.Reaches root p → ¬ t.OnCycle p := by
  constructor
  · rintro ⟨fuel, hsome⟩ p hp hcyc
    rw [printTree_eq_none hcyc hp] at hsome
    cases hsome
  · intro hacyc
    obtain ⟨lines, h⟩ := printTree_isSome indent hacyc (Nat.lt_succ_self (t.pids root).card)
    exact ⟨_, by rw [h]; rfl⟩

/-! ### Agreement with `_display_tree_node` -/

namespace Display

/-- `d'` is `d` after printing `lines`: their pids added to `visited` and to the printed
pids, in order. -/
def Extends (d d' : Display) (lines : List Line) : Prop :=
  d'.visited = d.visited ∪ (lines.map Line.pid).toFinset ∧
    d'.printed.map Line.pid = d.printed.map Line.pid ++ lines.map Line.pid

/-- `lines` repeat no pid and hold none of `visited`. -/
def Fresh (d : Display) (lines : List Line) : Prop :=
  (lines.map Line.pid).Nodup ∧ ∀ x ∈ lines.map Line.pid, x ∉ d.visited

/-- Two extensions of a display, one after the other, extend it by both blocks of lines. -/
theorem Extends.append {d d₁ d₂ : Display} {ys zs : List Line} (h₁ : d.Extends d₁ ys)
    (h₂ : d₁.Extends d₂ zs) : d.Extends d₂ (ys ++ zs) := by
  refine ⟨?_, ?_⟩
  · rw [h₂.1, h₁.1, List.map_append, List.toFinset_append, Finset.union_assoc]
  · rw [h₂.2, h₁.2, List.map_append, List.append_assoc]

/-- The front of a fresh block of lines is fresh. -/
theorem Fresh.left {d : Display} {ys zs : List Line} (h : d.Fresh (ys ++ zs)) : d.Fresh ys := by
  rw [Fresh, List.map_append, List.nodup_append] at h
  exact ⟨h.1.1, fun x hx => h.2 x (List.mem_append_left _ hx)⟩

/-- The back of a fresh block of lines is fresh for the display its front leaves. -/
theorem Fresh.right {d d' : Display} {ys zs : List Line} (h : d.Fresh (ys ++ zs))
    (hd : d.Extends d' ys) : d'.Fresh zs := by
  rw [Fresh, List.map_append, List.nodup_append] at h
  refine ⟨h.1.2.1, fun x hx hx' => ?_⟩
  rw [hd.1, Finset.mem_union, List.mem_toFinset] at hx'
  rcases hx' with hx' | hx'
  · exact h.2 x (List.mem_append_right _ hx) hx'
  · exact h.1.2.2 hx' hx

end Display

/-- A loop whose every step prints what a collecting loop collects, while it is fresh,
prints everything the collecting loop collects. -/
theorem foldlM_extends {α : Type} {g : α → Option (List Line)} {f : Display → α → Option Display}
    (hstep : ∀ x d ys, g x = some ys → d.Fresh ys → ∃ d', f d x = some d' ∧ d.Extends d' ys) :
    ∀ {l : List α} {ls : List (List Line)} {d : Display},
      List.Forall₂ (fun x ys => g x = some ys) l ls → d.Fresh ls.flatten →
      ∃ d', l.foldlM f d = some d' ∧ d.Extends d' ls.flatten
  | _, _, d, .nil, _ => ⟨d, rfl, by simp [Display.Extends]⟩
  | _, _, d, .cons hx h, hfresh => by
    rw [List.flatten_cons] at hfresh ⊢
    obtain ⟨d₁, hd₁, hext₁⟩ := hstep _ d _ hx hfresh.left
    obtain ⟨d₂, hd₂, hext₂⟩ := foldlM_extends hstep h (hfresh.right hext₁)
    exact ⟨d₂, by rw [List.foldlM_cons, hd₁]; exact hd₂, hext₁.append hext₂⟩

/-- Where `_print_tree` prints no pid twice and none of `visited`, `_display_tree_node` from
the same pid prints the same pids in the same order, and adds them to `visited`. -/
theorem displayTreeNode_of_printTree {t : ProcTable} :
    ∀ {fuel pid : Nat} {lp cp : String} {lines : List Line} {d : Display},
      printTree t fuel pid cp = some lines → d.Fresh lines →
      ∃ d', displayTreeNode t fuel pid lp cp d = some d' ∧ d.Extends d' lines
  | 0, _, _, _, _, _, h, _ => by cases h
  | fuel + 1, pid, lp, cp, lines, d, h, hfresh => by
    rw [printTree_succ] at h
    obtain ⟨ls, hls, rfl⟩ := Option.map_eq_some'.1 h
    have hpid : pid ∉ d.visited := hfresh.2 pid (List.mem_cons_self _ _)
    have hrest : (d.visit lp pid).Fresh ls.flatten := by
      obtain ⟨hnd, hvis⟩ := hfresh
      rw [List.map_cons, List.nodup_cons] at hnd
      refine ⟨hnd.2, fun x hx hx' => ?_⟩
      rcases Finset.mem_insert.1 hx' with rfl | hx'
      · exact hnd.1 hx
      · exact hvis x (List.mem_cons_of_mem _ hx) hx'
    have hstep : ∀ (ic : Nat × Nat) (d : Display) ys,
        printTree t fuel ic.2 (childPrefixes cp (t.children pid).length ic.1).2 = some ys →
        d.Fresh ys → ∃ d', displayTreeNode t fuel ic.2
          (childPrefixes cp (t.children pid).length ic.1).1
          (childPrefixes cp (t.children pid).length ic.1).2 d = some d' ∧ d.Extends d' ys :=
      fun _ _ _ hys hf => displayTreeNode_of_printTree hys hf
    obtain ⟨d', hd', hext⟩ := foldlM_extends hstep (forall₂_of_mapM hls) hrest
    refine ⟨d', ?_, ?_, ?_⟩
    · simp only [displayTreeNode, hpid, if_false]
      exact hd'
    · rw [hext.1, List.map_cons, List.toFinset_cons]
      simp only [Display.visit, Finset.insert_union, Finset.union_insert]
    · rw [hext.2]
      simp [Display.visit]

/-! ### Trees without repeated pids -/

section Forest

variable {t : ProcTable} (hu : t.UniqueParents)
include hu

/-- With unique parents, a child that reaches a sibling closes a cycle through their
parent, unless it is that sibling. -/
theorem eq_of_reaches_sibling {pid c c' : Nat} (hc : c ∈ t.children pid) (hc' : c' ∈ t.children pid)
    (hcyc : ¬ t.OnCycle pid) (h : t.Reaches c c') : c = c' := by
  rcases h.cases_tail with rfl | ⟨y, hcy, hy⟩
  · rfl
  · exact absurd (Relation.TransGen.head' hc (hu hy hc' ▸ hcy)) hcyc

/-- With unique parents and no repeated child, `_print_tree` below no cycle prints each pid
at most once, and only pids its root reaches. -/
theorem printTree_nodup (hnd : ∀ p, (t.children p).Nodup) :
    ∀ {fuel pid : Nat} {indent : String} {lines : List Line},
      printTree t fuel pid indent = some lines → (∀ p, t.Reaches pid p → ¬ t.OnCycle p) →
      (lines.map Line.pid).Nodup ∧ ∀ x ∈ lines.map Line.pid, t.Reaches pid x
  | 0, _, _, _, h, _ => by cases h
  | fuel + 1, pid, indent, lines, h, hacyc => by
    rw [printTree_succ] at h
    obtain ⟨ls, hls, rfl⟩ := Option.map_eq_some'.1 h
    have hblocks : List.Forall₂ (fun c b => b.Nodup ∧ ∀ x ∈ b, t.Reaches c x)
        (t.children pid) (ls.map (List.map Line.pid)) := by
      rw [← List.enum_map_snd (t.children pid), List.forall₂_map_left_iff,
        List.forall₂_map_right_iff]
      refine forall₂_imp_of_mem (fun ic hic ys hys => ?_) (forall₂_of_mapM hls)
      exact printTree_nodup hnd hys fun p hp =>
        hacyc p (Relation.ReflTransGen.head (List.snd_mem_of_mem_enum hic) hp)
    have hcyc : ¬ t.OnCycle pid := hacyc pid .refl
    have hsound : ∀ x ∈ (ls.map (List.map Line.pid)).flatten, ∃ c ∈ t.children pid, t.Reaches c x :=
      fun x hx => by
        obtain ⟨b, hb, hxb⟩ := List.mem_flatten.1 hx
        obtain ⟨c, hc, hcb⟩ := exists_mem_of_forall₂_right hblocks hb
        exact ⟨c, hc, hcb.2 x hxb⟩
    rw [List.map_cons, List.map_flatten]
    refine ⟨List.nodup_cons.2 ⟨fun hx => ?_, List.nodup_flatten.2 ⟨fun b hb => ?_, ?_⟩⟩, ?_⟩
    · obtain ⟨c, hc, hcp⟩ := hsound pid hx
      exact hcyc (Relation.TransGen.head' hc hcp)
    · obtain ⟨c, -, hcb⟩ := exists_mem_of_forall₂_right hblocks hb
      exact hcb.1
    · refine pairwise_disjoint_of_forall₂ (fun c c' b b' hc hc' hcb hcb' x hx hx' => ?_)
        hblocks (fun _ h => h) (hnd pid)
      rcases hu.reaches_total (hcb.2 x hx) (hcb'.2 x hx') with h | h
      · exact eq_of_reaches_sibling hu hc hc' hcyc h
      · exact (eq_of_reaches_sibling hu hc' hc hcyc h).symm
    · intro x hx
      rcases List.mem_cons.1 hx with rfl | hx
      · exact .refl
      · obtain ⟨c, hc, hcx⟩ := hsound x hx
        exact Relation.ReflTransGen.head hc hcx

end Forest

/-- On a psutil snapshot with no cycle of parent pids below a listed `root`,
`show_process_tree(root)` of `process_monitor.py` and `display_process_tree(root)` of
`process_manager.py` both return, and they print the same pids in the same order. -/
theorem showProcessTree_agrees (s : Snapshot) {root fuel : Nat} (hroot : root ∈ s.pids)
    (hfuel : s.procs.length < fuel) (hacyc : ∀ p, s.table.Reaches root p → ¬ s.table.OnCycle p) :
    ∃ lines lines', showProcessTree s fuel (some root) = some lines ∧
      s.displayProcessTree fuel (some root) = some lines' ∧
      lines.map Line.pid = lines'.map Line.pid := by
  obtain ⟨lines, hlines⟩ := printTree_isSome "" hacyc
    (lt_of_le_of_lt (Snapshot.card_pids_table_le hroot) hfuel)
  have hnd := (printTree_nodup Snapshot.uniqueParents Snapshot.nodup_children hlines hacyc).1
  obtain ⟨d, hd, hext⟩ := @displayTreeNode_of_printTree _ _ _ "" _ _ ⟨∅, []⟩ hlines
    ⟨hnd, fun _ _ => Finset.not_mem_empty _⟩
  refine ⟨lines, d.printed, by simp [showProcessTree, hroot, hlines], ?_, ?_⟩
  · simp [Snapshot.displayProcessTree, Process.displayProcessTree, Snapshot.getProcessTree, hroot, hd]
  · simpa using hext.2.symm

/-- A snapshot in which every parent pid is below its pid has no cycle. -/
theorem Snapshot.not_onCycle_of_ppid_lt {s : Snapshot} (h : ∀ q ∈ s.procs, q.ppid < q.pid)
    (p : Nat) : ¬ s.table.OnCycle p := by
  have hstep : ∀ {a b}, b ∈ s.table.children a → a < b := fun hc => by
    obtain ⟨-, -, -, q, hq, rfl, rfl, -⟩ := Snapshot.mem_children_table.1 hc
    exact h q hq
  intro hp
  have hlt : ∀ {a b}, Relation.TransGen (fun p q => q ∈ s.table.children p) a b → a < b :=
    fun hab => by
      induction hab with
      | single hc => exact hstep hc
      | tail _ hc ih => exact ih.trans (hstep hc)
  exact lt_irrefl p (hlt hp)

/-- On an acyclic tree of four processes, `show_process_tree` and `display_process_tree` print
the same pids in the same order. -/
theorem showProcessTree_agrees_init :
    let s : Snapshot := ⟨[⟨1, 0, 0⟩, ⟨2, 1, 1⟩, ⟨3, 1, 2⟩, ⟨4, 2, 3⟩], by decide⟩
    (1 ∈ s.pids ∧ s.procs.length < 5 ∧ ∀ p, s.table.Reaches 1 p → ¬ s.table.OnCycle p) ∧
      ∃ lines lines', showProcessTree s 5 (some 1) = some lines ∧
        s.displayProcessTree 5 (some 1) = some lines' ∧ lines.map Line.pid = lines'.map Line.pid :=
  have hacyc := fun p _ => Snapshot.not_onCycle_of_ppid_lt (by decide) p
  ⟨⟨by decide, by decide, hacyc⟩, showProcessTree_agrees _ (by decide) (by decide) hacyc⟩

example :
    let s : Snapshot := ⟨[⟨1, 0, 0⟩, ⟨2, 1, 1⟩, ⟨3, 1, 2⟩, ⟨4, 2, 3⟩], by decide⟩
    (showProcessTree s 5 (some 1)).map (·.map fun l => (l.linePrefix, l.pid)) =
        some [("", 1), ("│   ", 2), ("│       ", 4), ("    ", 3)] ∧
      (s.displayProcessTree 5 (some 1)).map (·.map fun l => (l.linePrefix, l.pid)) =
        some [("", 1), ("├── ", 2), ("│   └── ", 4), ("└── ", 3)] := by
  decide

end OsCompas.Process
