import Mathlib.Data.Rat.Defs
import OsCompas.Process.Tree

/-!
# psutil snapshots

What `process_manager.py` reads through psutil: each process's pid, parent pid and creation
time, with `children()` and the roots of `get_process_tree` (lines 28–41) computed from
them. Without pid 0 every process is printed at most once; with pid 0 of parent 0 the
other roots' trees are printed twice.
-/

namespace OsCompas.Process

/-- A process as psutil reports it: `pid`, `ppid()` and `create_time()`. -/
structure ProcInfo where
  pid : Nat
  ppid : Nat
  createTime : ℚ
  deriving DecidableEq

/-- The process table at one instant: the processes `process_iter` yields, in its order,
each pid once. -/
structure Snapshot where
  procs : List ProcInfo
  nodup_pids : (procs.map ProcInfo.pid).Nodup

/-- Each pid is a child of at most one pid. -/
def ProcTable.UniqueParents (t : ProcTable) : Prop :=
  ∀ {p p' c : Nat}, c ∈ t.children p → c ∈ t.children p' → p = p'

/-- With unique parents, two pids that reach a common pid lie on one chain. -/
theorem ProcTable.UniqueParents.reaches_total {t : ProcTable} (ht : t.UniqueParents)
    {a b q : Nat} (ha : t.Reaches a q) (hb : t.Reaches b q) : t.Reaches a b ∨ t.Reaches b a := by
  induction ha generalizing b with
  | refl => exact .inr hb
  | @tail x q' hax hxq ih =>
    rcases hb.cases_tail with rfl | ⟨y, hby, hyq⟩
    · exact .inl (hax.tail hxq)
    · exact ih (ht hyq hxq ▸ hby)

namespace Snapshot

variable (s : Snapshot)

/-- The listed pids. -/
def pids : List Nat := s.procs.map ProcInfo.pid

/-- `psutil.Process(p.pid).children()`: the listed processes whose parent pid is `p`'s pid
and that were not created before `p`. -/
def childrenOf (p : ProcInfo) : List Nat :=
  (s.procs.filter fun q => q.ppid = p.pid ∧ p.createTime ≤ q.createTime).map ProcInfo.pid

/-- The table `_display_tree_node` reads: each listed pid with its children. Only listed
pids reach it, as roots or as children. -/
def table : ProcTable := ⟨s.procs.map fun p => (p.pid, s.childrenOf p)⟩

/-- `get_process_tree(pid)`, lines 28–41: with no pid, the processes whose parent pid is 0,
in `process_iter` order; otherwise `[psutil.Process(pid)]`, or `[]` on `NoSuchProcess`.
`max_depth` is never read. -/
def getProcessTree : Option Nat → List Nat
  | none => (s.procs.filter fun p => p.ppid = 0).map ProcInfo.pid
  | some pid => if pid ∈ s.pids then [pid] else []

/-- `display_process_tree(pid)`, lines 43–51, on a snapshot. -/
def displayProcessTree (fuel : Nat) (pid : Option Nat) : Option (List Line) :=
  Process.displayProcessTree s.table fuel (s.getProcessTree pid)

variable {s}

/-- The only listed process of a listed pid. -/
theorem eq_of_pid_eq {p q : ProcInfo} (hp : p ∈ s.procs) (hq : q ∈ s.procs) (h : p.pid = q.pid) :
    p = q :=
  List.inj_on_of_nodup_map s.nodup_pids hp hq h

/-- Pids are distinct, so the search for a process's pid finds that process. -/
theorem find?_pid {p : ProcInfo} (hp : p ∈ s.procs) : s.procs.find? (·.pid = p.pid) = some p := by
  have hsome : (s.procs.find? (·.pid = p.pid)).isSome := List.find?_isSome.2 ⟨p, hp, by simp⟩
  obtain ⟨q, hq⟩ := Option.isSome_iff_exists.1 hsome
  have hpid : q.pid = p.pid := by simpa using List.find?_some hq
  rw [hq, eq_of_pid_eq (List.mem_of_find?_eq_some hq) hp hpid]

/-- The table gives a listed process the children psutil lists for it. -/
theorem children_table {p : ProcInfo} (hp : p ∈ s.procs) : s.table.children p.pid = s.childrenOf p := by
  simp only [table, ProcTable.children, List.find?_map, Function.comp_def]
  rw [find?_pid hp]
  rfl

/-- A child in the table is a listed process whose parent pid is the pid. -/
theorem mem_children_table {p c : Nat} :
    c ∈ s.table.children p ↔ ∃ pp ∈ s.procs, pp.pid = p ∧
      ∃ q ∈ s.procs, q.pid = c ∧ q.ppid = p ∧ pp.createTime ≤ q.createTime := by
  constructor
  · intro hc
    simp only [table, ProcTable.children, List.find?_map, Function.comp_def] at hc
    cases hf : s.procs.find? (·.pid = p) with
    | none => rw [hf] at hc; simp at hc
    | some pp =>
      rw [hf] at hc
      simp only [Option.map_some', Option.getD_some, childrenOf, List.mem_map,
        List.mem_filter, decide_eq_true_eq] at hc
      have hpp : pp.pid = p := by simpa using List.find?_some hf
      obtain ⟨q, ⟨hq, hqp, hct⟩, rfl⟩ := hc
      exact ⟨pp, List.mem_of_find?_eq_some hf, hpp, q, hq, rfl, hpp ▸ hqp, hct⟩
  · rintro ⟨pp, hpp, rfl, q, hq, rfl, hqp, hct⟩
    rw [children_table hpp]
    exact List.mem_map_of_mem _ (List.mem_filter.2 ⟨hq, by simp [hqp, hct]⟩)

/-- Every process of the snapshot has its pid listed. -/
theorem mem_pids {p : ProcInfo} (hp : p ∈ s.procs) : p.pid ∈ s.pids := List.mem_map_of_mem _ hp

/-- Every child in the table is listed. -/
theorem mem_pids_of_mem_children {p c : Nat} (hc : c ∈ s.table.children p) : c ∈ s.pids := by
  obtain ⟨-, -, -, q, hq, rfl, -⟩ := mem_children_table.1 hc
  exact mem_pids hq

/-- A child's parent is its parent pid. -/
theorem ppid_of_mem_children {p : Nat} {q : ProcInfo} (hq : q ∈ s.procs)
    (hc : q.pid ∈ s.table.children p) : q.ppid = p := by
  obtain ⟨-, -, -, q', hq', hpid, hqp, -⟩ := mem_children_table.1 hc
  rwa [← eq_of_pid_eq hq' hq hpid]

/-- A snapshot's table gives every pid at most one parent. -/
theorem uniqueParents : s.table.UniqueParents := fun {p p' c} hc hc' => by
  obtain ⟨-, -, -, q, hq, rfl, hqp, -⟩ := mem_children_table.1 hc
  exact hqp ▸ ppid_of_mem_children hq hc'

/-- psutil lists each child once. -/
theorem nodup_children (p : Nat) : (s.table.children p).Nodup := by
  by_cases hp : ∃ pp ∈ s.procs, pp.pid = p
  · obtain ⟨pp, hpp, rfl⟩ := hp
    rw [children_table hpp]
    exact s.nodup_pids.sublist ((List.filter_sublist _).map _)
  · simp only [not_exists, not_and] at hp
    suffices h : s.table.children p = [] by simp [h]
    refine List.eq_nil_iff_forall_not_mem.2 fun c hc => ?_
    obtain ⟨pp, hpp, rfl, -⟩ := mem_children_table.1 hc
    exact hp pp hpp rfl

/-- What a listed pid reaches is listed. -/
theorem mem_pids_of_reaches {a x : Nat} (h : s.table.Reaches a x) (ha : a ∈ s.pids) :
    x ∈ s.pids := by
  induction h with
  | refl => exact ha
  | tail _ hc _ => exact mem_pids_of_mem_children hc

/-- A table that lists pids only from the snapshot has at most as many pids as processes. -/
theorem card_pids_table_le {r : Nat} (hr : r ∈ s.pids) : (s.table.pids r).card ≤ s.procs.length := by
  have hsub : s.table.pids r ⊆ s.pids.toFinset := by
    intro x hx
    simp only [ProcTable.pids, Finset.mem_insert, List.mem_toFinset, List.mem_flatMap,
      table, List.mem_map, List.mem_cons] at hx
    rw [List.mem_toFinset]
    rcases hx with rfl | ⟨_, ⟨p, hp, rfl⟩, rfl | hx⟩
    · exact hr
    · exact mem_pids hp
    · exact mem_pids_of_mem_children ((children_table hp).symm ▸ hx)
  calc (s.table.pids r).card ≤ s.pids.toFinset.card := Finset.card_le_card hsub
    _ = s.procs.length := by rw [pids, List.toFinset_card_of_nodup s.nodup_pids, List.length_map]

/-- The roots of the whole tree are the pids of the processes whose parent is `0`. -/
theorem mem_getProcessTree_none {r : Nat} :
    r ∈ s.getProcessTree none ↔ ∃ p ∈ s.procs, p.ppid = 0 ∧ p.pid = r := by
  simp [getProcessTree, and_assoc]

/-- `get_process_tree` lists no root twice. -/
theorem nodup_getProcessTree (pid : Option Nat) : (s.getProcessTree pid).Nodup := by
  cases pid with
  | none => exact s.nodup_pids.sublist ((List.filter_sublist _).map _)
  | some pid => simp only [getProcessTree]; split <;> simp

/-- Without a listed pid 0, a root reaches no other root: its parent pid would be 0. -/
theorem eq_of_reaches_root (h0 : 0 ∉ s.pids) {a r : Nat} (ha : a ∈ s.pids)
    (hr : r ∈ s.getProcessTree none) (h : s.table.Reaches a r) : a = r := by
  obtain ⟨p, hp, hp0, rfl⟩ := mem_getProcessTree_none.1 hr
  rcases h.cases_tail with rfl | ⟨y, hay, hy⟩
  · rfl
  · have hy0 : y = 0 := (ppid_of_mem_children hp hy).symm.trans hp0
    exact absurd (hy0 ▸ mem_pids_of_reaches hay ha) h0

/-- Without a listed pid 0, no pid lies below two roots. -/
theorem root_eq_of_reaches (h0 : 0 ∉ s.pids) {r r' q : Nat} (hr : r ∈ s.getProcessTree none)
    (hr' : r' ∈ s.getProcessTree none) (hq : s.table.Reaches r q) (hq' : s.table.Reaches r' q) :
    r = r' := by
  have hmem : ∀ {x}, x ∈ s.getProcessTree none → x ∈ s.pids := fun hx => by
    obtain ⟨p, hp, -, rfl⟩ := mem_getProcessTree_none.1 hx
    exact mem_pids hp
  rcases uniqueParents.reaches_total hq hq' with h | h
  · exact eq_of_reaches_root h0 (hmem hr) hr' h
  · exact (eq_of_reaches_root h0 (hmem hr') hr h).symm

end Snapshot

/-! ### Blocks of roots -/

section Blocks

variable {α β : Type}

/-- Each member of the left list of a `Forall₂` is related to a member of the right list. -/
theorem exists_mem_of_forall₂ {γ : Type} {R : α → γ → Prop} {a : α} :
    ∀ {as : List α} {bs : List γ}, List.Forall₂ R as bs → a ∈ as → ∃ b ∈ bs, R a b
  | _, _, .cons hab h, ha => by
    rcases List.mem_cons.1 ha with rfl | ha
    · exact ⟨_, List.mem_cons_self _ _, hab⟩
    · obtain ⟨b, hb, hR⟩ := exists_mem_of_forall₂ h ha
      exact ⟨b, List.mem_cons_of_mem _ hb, hR⟩

/-- Each member of the right list of a `Forall₂` is related to a member of the left list. -/
theorem exists_mem_of_forall₂_right {γ : Type} {R : α → γ → Prop} {b : γ} :
    ∀ {as : List α} {bs : List γ}, List.Forall₂ R as bs → b ∈ bs → ∃ a ∈ as, R a b
  | _, _, .cons hab h, hb => by
    rcases List.mem_cons.1 hb with rfl | hb
    · exact ⟨_, List.mem_cons_self _ _, hab⟩
    · obtain ⟨a, ha, hR⟩ := exists_mem_of_forall₂_right h hb
      exact ⟨a, List.mem_cons_of_mem _ ha, hR⟩

variable {R : α → List β → Prop}

/-- Blocks that each hold what a predicate of their key says: the concatenation holds what
the predicate says for some key. -/
theorem mem_flatten_of_forall₂ {P : α → β → Prop} (hR : ∀ a b, R a b → ∀ x, x ∈ b ↔ P a x) :
    ∀ {as : List α} {bs : List (List β)}, List.Forall₂ R as bs →
      ∀ x, x ∈ bs.flatten ↔ ∃ a ∈ as, P a x
  | _, _, .nil, x => by simp
  | _, _, .cons hab h, x => by
    simp [hR _ _ hab x, mem_flatten_of_forall₂ hR h x]

/-- The blocks of distinct keys satisfying `Q` are pairwise disjoint when two such keys
whose blocks share an element are equal. -/
theorem pairwise_disjoint_of_forall₂ {Q : α → Prop}
    (hR : ∀ a a' b b', Q a → Q a' → R a b → R a' b' → ∀ x, x ∈ b → x ∈ b' → a = a') :
    ∀ {as : List α} {bs : List (List β)}, List.Forall₂ R as bs → (∀ a ∈ as, Q a) → as.Nodup →
      bs.Pairwise List.Disjoint
  | _, _, .nil, _, _ => .nil
  | _, _, .cons hab h, hQ, hnd => by
    rw [List.nodup_cons] at hnd
    refine List.Pairwise.cons (fun b' hb' x hx hx' => ?_)
      (pairwise_disjoint_of_forall₂ hR h (fun a ha => hQ a (List.mem_cons_of_mem _ ha)) hnd.2)
    obtain ⟨a', ha', hR'⟩ := exists_mem_of_forall₂_right h hb'
    exact hnd.1 (hR _ _ _ _ (hQ _ (List.mem_cons_self _ _)) (hQ a' (List.mem_cons_of_mem _ ha'))
      hab hR' x hx hx' ▸ ha')

/-- An element of the blocks of two distinct keys occurs twice in their concatenation. -/
theorem two_le_count_flatten [BEq β] [LawfulBEq β] {x : β} {a a' : α} (hne : a ≠ a')
    (hR : ∀ b, R a b ∨ R a' b → x ∈ b) :
    ∀ {as : List α} {bs : List (List β)}, List.Forall₂ R as bs → a ∈ as → a' ∈ as →
      2 ≤ bs.flatten.count x
  | c :: as, b :: bs, .cons hcb h, ha, ha' => by
    rw [List.flatten_cons, List.count_append]
    have hrest : ∀ d ∈ as, d = a ∨ d = a' → 1 ≤ bs.flatten.count x := fun d hd hda => by
      obtain ⟨b', hb', hRd⟩ := exists_mem_of_forall₂ h hd
      refine List.one_le_count_iff.2 (List.mem_flatten.2 ⟨b', hb', hR b' ?_⟩)
      rcases hda with rfl | rfl
      exacts [.inl hRd, .inr hRd]
    by_cases hca : c = a
    · have h1 := hrest a' ((List.mem_cons.1 ha').resolve_left fun h => hne (h.trans hca).symm)
        (.inr rfl)
      have h2 := List.one_le_count_iff.2 (hR b (.inl (hca ▸ hcb)))
      omega
    by_cases hca' : c = a'
    · have h1 := hrest a ((List.mem_cons.1 ha).resolve_left fun h => hne (h.trans hca')) (.inl rfl)
      have h2 := List.one_le_count_iff.2 (hR b (.inr (hca' ▸ hcb)))
      omega
    have := two_le_count_flatten hne hR h ((List.mem_cons.1 ha).resolve_left (Ne.symm hca))
      ((List.mem_cons.1 ha').resolve_left (Ne.symm hca'))
    omega

end Blocks

namespace Snapshot

variable {s : Snapshot}

/-- With more recursion levels than processes, `display_process_tree()` prints one block per
root, and each block prints the pids below its root, each once. -/
theorem displayProcessTree_none_blocks (fuel : Nat) (hfuel : s.procs.length < fuel) :
    ∃ blocks : List (List Line), s.displayProcessTree fuel none = some blocks.flatten ∧
      List.Forall₂ (fun r b => b.Nodup ∧ ∀ p, p ∈ b ↔ s.table.Reaches r p)
        (s.getProcessTree none) (blocks.map (List.map Line.pid)) := by
  obtain ⟨blocks, hd, hall⟩ := Process.displayProcessTree_blocks s.table fuel
    (s.getProcessTree none) fun r hr => by
      obtain ⟨p, hp, -, rfl⟩ := mem_getProcessTree_none.1 hr
      exact lt_of_le_of_lt (card_pids_table_le (mem_pids hp)) hfuel
  exact ⟨blocks, hd, List.forall₂_map_right_iff.2 hall⟩

/-- `display_process_tree()` on a snapshot without pid 0: it returns, prints each process
at most once, and prints exactly the processes below a process of parent pid 0. -/
theorem displayProcessTree_once (fuel : Nat) (h0 : 0 ∉ s.pids) (hfuel : s.procs.length < fuel) :
    ∃ lines, s.displayProcessTree fuel none = some lines ∧ (lines.map Line.pid).Nodup ∧
      ∀ p, p ∈ lines.map Line.pid ↔ ∃ r ∈ s.getProcessTree none, s.table.Reaches r p := by
  obtain ⟨blocks, hd, hall'⟩ := displayProcessTree_none_blocks fuel hfuel
  refine ⟨_, hd, ?_, fun p => ?_⟩
  · rw [List.map_flatten, List.nodup_flatten]
    refine ⟨fun b hb => ?_, pairwise_disjoint_of_forall₂ (fun r r' b b' hr hr' hb hb' x hx hx' =>
      root_eq_of_reaches h0 hr hr' ((hb.2 x).1 hx) ((hb'.2 x).1 hx')) hall' (fun _ h => h)
      (nodup_getProcessTree _)⟩
    obtain ⟨r, -, hr⟩ := exists_mem_of_forall₂_right hall' hb
    exact hr.1
  · rw [List.map_flatten]
    exact mem_flatten_of_forall₂ (fun _ _ h => h.2) hall' p

/-- A Linux snapshot with two roots under an unlisted pid `0`: each process the roots reach is
printed once. -/
theorem displayProcessTree_once_linux :
    let s : Snapshot := ⟨[⟨1, 0, 0⟩, ⟨2, 0, 0⟩, ⟨3, 1, 5⟩, ⟨4, 3, 6⟩], by decide⟩
    (0 ∉ s.pids ∧ s.procs.length < 5) ∧
      ∃ lines, s.displayProcessTree 5 none = some lines ∧ (lines.map Line.pid).Nodup ∧
        ∀ p, p ∈ lines.map Line.pid ↔ ∃ r ∈ s.getProcessTree none, s.table.Reaches r p :=
  ⟨⟨by decide, by decide⟩, displayProcessTree_once 5 (by decide) (by decide)⟩

/-- `display_process_tree()` on a snapshot that lists pid 0 with parent pid 0: pid 0 is a
root, and every other root created no earlier than it is also its child, so each process
below such a root is printed twice. -/
theorem displayProcessTree_twice (fuel : Nat) (hfuel : s.procs.length < fuel) {z r : ProcInfo}
    (hz : z ∈ s.procs) (hz0 : z.pid = 0 ∧ z.ppid = 0) (hr : r ∈ s.procs) (hr0 : r.ppid = 0)
    (hrz : r.pid ≠ 0) (hct : z.createTime ≤ r.createTime) {p : Nat}
    (hp : s.table.Reaches r.pid p) :
    ∃ lines, s.displayProcessTree fuel none = some lines ∧ 2 ≤ (lines.map Line.pid).count p := by
  obtain ⟨blocks, hd, hall'⟩ := displayProcessTree_none_blocks fuel hfuel
  have hchild : r.pid ∈ s.table.children 0 :=
    mem_children_table.2 ⟨z, hz, hz0.1, r, hr, rfl, hr0, hct⟩
  refine ⟨_, hd, ?_⟩
  rw [List.map_flatten]
  refine two_le_count_flatten (Ne.symm hrz) (fun b hb => ?_) hall'
    (mem_getProcessTree_none.2 ⟨z, hz, hz0.2, hz0.1⟩) (mem_getProcessTree_none.2 ⟨r, hr, hr0, rfl⟩)
  rcases hb with hb | hb
  · exact (hb.2 p).2 (Relation.ReflTransGen.head hchild hp)
  · exact (hb.2 p).2 hp

/-- A macOS snapshot that lists pid `0` as its own parent: pid `2`, below the root `1`, is
printed twice. -/
theorem displayProcessTree_twice_macos :
    let s : Snapshot := ⟨[⟨0, 0, 0⟩, ⟨1, 0, 1⟩, ⟨2, 1, 2⟩], by decide⟩
    (s.procs.length < 4 ∧ (⟨0, 0, 0⟩ : ProcInfo) ∈ s.procs ∧ (0 = 0 ∧ 0 = 0) ∧
      (⟨1, 0, 1⟩ : ProcInfo) ∈ s.procs ∧ 0 = 0 ∧ 1 ≠ 0 ∧ (0 : ℚ) ≤ 1 ∧ s.table.Reaches 1 2) ∧
      ∃ lines, s.displayProcessTree 4 none = some lines ∧ 2 ≤ (lines.map Line.pid).count 2 :=
  ⟨⟨by decide, by decide, ⟨rfl, rfl⟩, by decide, rfl, by decide, by decide,
    .single (by decide)⟩,
    @displayProcessTree_twice _ 4 (by decide) ⟨0, 0, 0⟩ ⟨1, 0, 1⟩ (by decide) ⟨rfl, rfl⟩ (by decide)
      rfl (by decide) (by decide) 2 (.single (by decide))⟩

example :
    ((Snapshot.mk [⟨0, 0, 0⟩, ⟨1, 0, 1⟩, ⟨2, 1, 2⟩] (by decide)).displayProcessTree 4 none).map
      (·.map Line.pid) = some [0, 1, 2, 1, 2] := by
  decide

end Snapshot

end OsCompas.Process
