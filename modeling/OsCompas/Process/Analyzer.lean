import Mathlib.Data.Finset.Card

/-!
# Watching `/proc` for process changes

`ProcAnalyzer.monitor_process_changes`, `proc_analyzer.py:347–377`: each pass lists the
numeric entries of `/proc` and prints the counts of new and of vanished pids against the
previous pass. Over a run whose listings each hold a pid, the printed births minus deaths
telescope to the change in the process count.
-/

namespace OsCompas.Process

/-- `name.isdigit()`: a nonempty name of digits, `digit` being Unicode's digit property. -/
def isdigit (digit : Char → Bool) (name : String) : Bool :=
  !name.isEmpty && name.toList.all digit

variable (digit : Char → Bool)

/-- `current_processes`, lines 355–359: the names in the listing of `/proc` that are all
digits. -/
def currentProcesses (listing : List String) : Finset String :=
  (listing.filter (isdigit digit)).toFinset

/-- What one pass prints, lines 361–369: the number of new pids and of terminated pids,
each when it is not zero. -/
structure Changes where
  new : Option Nat
  dead : Option Nat
  deriving DecidableEq

/-- `if s: print(len(s))`. -/
def printedCount (s : Finset String) : Option Nat := if s = ∅ then none else some s.card

/-- One pass of the loop, lines 353–371: what it prints, `none` when `previous_processes` is
empty, and the next `previous_processes`. -/
def monitorPass (previous : Finset String) (listing : List String) :
    Option Changes × Finset String :=
  let current := currentProcesses digit listing
  (if previous = ∅ then none
    else some ⟨printedCount (current \ previous), printedCount (previous \ current)⟩, current)

/-- The passes of a run from `previous_processes`, over the listings they see. -/
def monitorRun : Finset String → List (List String) → List (Option Changes)
  | _, [] => []
  | previous, listing :: listings =>
    let (printed, previous) := monitorPass digit previous listing
    printed :: monitorRun previous listings

/-- `monitor_process_changes`, from `previous_processes = set()`. -/
def monitorProcessChanges (listings : List (List String)) : List (Option Changes) :=
  monitorRun digit ∅ listings

/-- The births minus the deaths a pass prints. -/
def Changes.net (c : Changes) : Int := (c.new.getD 0 : Int) - (c.dead.getD 0 : Int)

/-- The births minus the deaths a run prints. -/
def printedNet : List (Option Changes) → Int
  | [] => 0
  | printed :: run => (printed.map Changes.net).getD 0 + printedNet run

/-! ### One pass -/

/-- What a pass prints for a set, read with `0` for nothing printed, is its size. -/
theorem getD_printedCount (s : Finset String) : (printedCount s).getD 0 = s.card := by
  unfold printedCount
  split
  · subst s; rfl
  · rfl

/-- A pass after a nonempty listing prints the change in the number of pids. -/
theorem net_monitorPass {previous : Finset String} (h : previous ≠ ∅) (listing : List String) :
    (((monitorPass digit previous listing).1).map Changes.net).getD 0 =
      ((currentProcesses digit listing).card : Int) - previous.card := by
  simp only [monitorPass, if_neg h, Option.map_some', Option.getD_some, Changes.net,
    getD_printedCount]
  have hcur := Finset.card_sdiff_add_card_inter (currentProcesses digit listing) previous
  have hprev := Finset.card_sdiff_add_card_inter previous (currentProcesses digit listing)
  rw [Finset.inter_comm] at hprev
  omega

/-! ### Whole runs -/

/-- A run is its first pass followed by the run from that pass's pids. -/
theorem monitorRun_cons (previous : Finset String) (listing : List String)
    (listings : List (List String)) :
    monitorRun digit previous (listing :: listings) =
      (monitorPass digit previous listing).1 ::
        monitorRun digit (currentProcesses digit listing) listings := rfl

/-- From a nonempty previous set, a run prints in total the change from it to the last
listing's pids. -/
theorem printedNet_monitorRun {listings : List (List String)}
    (hne : ∀ l ∈ listings, currentProcesses digit l ≠ ∅) {previous : Finset String}
    (h : previous ≠ ∅) :
    printedNet (monitorRun digit previous listings) =
      ((listings.map (currentProcesses digit)).getLastD previous).card - previous.card := by
  induction listings generalizing previous with
  | nil => simp [monitorRun, printedNet]
  | cons l ls ih =>
    have hrest := ih (fun l' hl' => hne l' (List.mem_cons_of_mem l hl'))
      (hne l (List.mem_cons_self l ls))
    rw [monitorRun_cons, printedNet, net_monitorPass digit h, hrest, List.map_cons,
      List.getLastD_cons]
    omega

/-- Over any run in which every listing holds a pid, the first pass prints nothing, and the
births printed minus the deaths printed are the change in the number of processes from the
first pass to the last. -/
theorem monitorProcessChanges_net {first : List String} {listings : List (List String)}
    (hne : ∀ l ∈ first :: listings, currentProcesses digit l ≠ ∅) :
    (monitorProcessChanges digit (first :: listings)).head? = some none ∧
      printedNet (monitorProcessChanges digit (first :: listings)) =
        ((listings.map (currentProcesses digit)).getLastD (currentProcesses digit first)).card -
          (currentProcesses digit first).card := by
  have hrun := printedNet_monitorRun digit (fun l hl => hne l (List.mem_cons_of_mem first hl))
    (hne first (List.mem_cons_self first listings))
  refine ⟨rfl, ?_⟩
  rw [monitorProcessChanges, monitorRun_cons, printedNet, hrun]
  exact Int.zero_add _


/-- Two processes start and one ends between two passes: the run prints a net change of one. -/
theorem monitorProcessChanges_net_fork :
    (∀ l ∈ [["1", "2", "self"], ["1", "3", "4"]], currentProcesses Char.isDigit l ≠ ∅) ∧
      (monitorProcessChanges Char.isDigit [["1", "2", "self"], ["1", "3", "4"]]).head? =
        some none ∧
      printedNet (monitorProcessChanges Char.isDigit [["1", "2", "self"], ["1", "3", "4"]]) =
        (([["1", "3", "4"]].map (currentProcesses Char.isDigit)).getLastD
          (currentProcesses Char.isDigit ["1", "2", "self"])).card -
          (currentProcesses Char.isDigit ["1", "2", "self"]).card :=
  have hne : ∀ l ∈ [["1", "2", "self"], ["1", "3", "4"]], currentProcesses Char.isDigit l ≠ ∅ := by
    decide
  ⟨hne, monitorProcessChanges_net Char.isDigit hne⟩

/-- Two processes start and one ends between the passes; `self` is not a pid. -/
example : monitorProcessChanges Char.isDigit [["1", "2", "self"], ["1", "3", "4"]] =
    [none, some ⟨some 2, some 1⟩] := by
  decide

end OsCompas.Process
