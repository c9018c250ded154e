import OsCompas.Python.Regex

/-!
# The trace line pattern

The pattern of `syscall_tracer.py:108`. On a line in strace's format the match reads back
the timestamp, the call, its arguments and the result up to the first `<`; every line it
accepts has that shape, and the duration group never takes part.
-/

namespace OsCompas.Tracer

open OsCompas.Python

/-- `\d+:\d+:\d+\.\d+`, the body of the timestamp group. -/
def timestampPart : Regex :=
  .cat [.plus .digit, .lit ':', .plus .digit, .lit ':', .plus .digit, .lit '.', .plus .digit]

/-- `(\d+:\d+:\d+\.\d+)\s+(\w+)\((.*?)\)\s+=\s+`, the part before the result group. -/
def headPart : Regex :=
  .cat [.group 1 timestampPart, .plus .space, .group 2 (.plus .word), .lit '(', .group 3 (.lazyStar .any), .lit ')',
    .plus .space, .lit '=', .plus .space]

/-- `\s+<([^>]+)>`, the body of the optional duration group. -/
def durationPart : Regex :=
  .cat [.plus .space, .lit '<', .group 5 (.plus (.noneOf '>')), .lit '>']

/-- The pattern of `syscall_tracer.py:108`. -/
def tracePattern : Regex :=
  .cat [headPart, .group 4 (.plus (.noneOf '<')), .opt durationPart]

variable (U : UnicodeClasses)

/-- A nonempty run of characters of one class. -/
def IsRun (p : Char → Bool) (u : List Char) : Prop := u ≠ [] ∧ ∀ c ∈ u, p c = true

/-- The timestamp `h:m:s.f` as strace `-tt` writes it. -/
def timestampText (h m s f : List Char) : List Char := h ++ ':' :: (m ++ ':' :: (s ++ '.' :: f))

/-- `timestampPart` reads a timestamp of four digit runs, up to the first non-digit. -/
theorem matchRe_timestampPart {h m s f w : List Char} (hh : IsRun U.isDigit h)
    (hm : IsRun U.isDigit m) (hs : IsRun U.isDigit s) (hf : IsRun U.isDigit f)
    (hw : w.dropWhile U.isDigit = w) (caps : Captures) (k : Cont) (x : Captures)
    (hk : k w caps = some x) :
    matchRe U timestampPart k (timestampText h m s f ++ w) caps = some x := by
  simp only [timestampPart, timestampText, matchRe_cat_cons, matchRe_cat_nil, List.append_assoc,
    List.cons_append]
  refine matchRe_plus_run U hh.1 hh.2 (by simp [U.colon_not_digit]) ?_
  rw [matchRe_lit_self]
  refine matchRe_plus_run U hm.1 hm.2 (by simp [U.colon_not_digit]) ?_
  rw [matchRe_lit_self]
  refine matchRe_plus_run U hs.1 hs.2 (by simp [U.dot_not_digit]) ?_
  rw [matchRe_lit_self]
  exact matchRe_plus_run U hf.1 (by simpa using hf.2) (by simpa using hw) hk

/-- `headPart` reads a line's timestamp, call and arguments, up to the result. -/
theorem matchRe_headPart {h m s f name args t : List Char} (hh : IsRun U.isDigit h)
    (hm : IsRun U.isDigit m) (hs : IsRun U.isDigit s) (hf : IsRun U.isDigit f)
    (hname : IsRun U.isWord name) (hargs : ∀ c ∈ args, c ≠ '\n' ∧ c ≠ ')')
    (ht : t.dropWhile U.isSpace = t) {k : Cont} {caps x : Captures}
    (hk : k t (capture (capture (capture caps 1 (timestampText h m s f)) 2 name) 3 args) =
      some x) :
    matchRe U headPart k
      (timestampText h m s f ++ ' ' :: (name ++ '(' :: (args ++ ')' :: ' ' :: '=' :: ' ' :: t)))
      caps = some x := by
  simp only [headPart, matchRe_cat_cons, matchRe_cat_nil]
  refine matchRe_group_of U (matchRe_timestampPart U hh hm hs hf
    (by simp [U.blank_not_digit]) caps) ?_
  refine matchRe_plus_one U (by simpa using U.blank_is_space) ?_ ?_
  · obtain ⟨c, name', rfl⟩ := List.exists_cons_of_ne_nil hname.1
    simp [U.word_not_space' c (hname.2 c (List.mem_cons_self _ _))]
  refine matchRe_group_of U (fun K y hK => matchRe_plus_run U hname.1 (by simpa using hname.2)
    (by simp [U.paren_not_word]) hK) ?_
  rw [matchRe_lit_self]
  refine matchRe_group_lazyStar_lit U (fun c hc => ⟨by simpa using (hargs c hc).1,
    (hargs c hc).2⟩) ?_
  refine matchRe_plus_one U (by simpa using U.blank_is_space) (by simp [U.eq_not_space]) ?_
  rw [matchRe_lit_self]
  exact matchRe_plus_one U (by simpa using U.blank_is_space) (by simpa using ht) hk

/-- `durationPart` fails wherever a greedy `[^<]+` can stop. -/
theorem matchRe_durationPart_of_dropWhile (w : List Char) (k : Cont) (caps : Captures) :
    matchRe U durationPart k (w.dropWhile (· != '<')) caps = none := by
  cases h : w.dropWhile (· != '<') with
  | nil => rfl
  | cons d v =>
    have hd : d = '<' := by
      simpa [h] using List.head_dropWhile_not (· != '<') w (by simp [h])
    subst hd
    simp only [durationPart, matchRe_cat_cons]
    exact matchRe_plus_of_not U (show CharClass.space.test U '<' = false from U.lt_not_space) _ _ _

/-- From the result group on, a match takes everything up to the first `<` as the result
and leaves the duration group alone. -/
theorem matchRe_resultPart (c : Char) (hc : c ≠ '<') (t : List Char) (caps : Captures) :
    matchRe U (.cat [.group 4 (.plus (.noneOf '<')), .opt durationPart])
        (fun _ caps => some caps) (c :: t) caps =
      some (capture caps 4 ((c :: t).takeWhile (· != '<'))) := by
  simp only [matchRe_cat_cons, matchRe_group]
  refine matchRe_plus_of U (by simpa using hc) ?_
  simp only [CharClass.test_noneOf]
  rw [matchRe_opt_of_none U (matchRe_durationPart_of_dropWhile U t _ _)]
  have hsplit := List.takeWhile_append_dropWhile (· != '<') (c :: t)
  rw [List.dropWhile_cons_of_pos (by simpa using hc)] at hsplit
  conv_lhs => rw [← hsplit]
  rw [take_sub_length_append]
  rfl

/-- The pattern on a line `h:m:s.f name(args) = t`: the result is `t` up to its first `<`. -/
theorem matchRe_tracePattern {h m s f name args t : List Char} {c : Char}
    (hh : IsRun U.isDigit h) (hm : IsRun U.isDigit m) (hs : IsRun U.isDigit s)
    (hf : IsRun U.isDigit f) (hname : IsRun U.isWord name)
    (hargs : ∀ c ∈ args, c ≠ '\n' ∧ c ≠ ')') (hc : c ≠ '<') (hcs : U.isSpace c = false)
    (caps : Captures) :
    matchRe U tracePattern (fun _ caps => some caps)
        (timestampText h m s f ++ ' ' :: (name ++ '(' :: (args ++ ')' :: ' ' :: '=' :: ' ' :: c :: t)))
        caps =
      some (capture (capture (capture (capture caps 1 (timestampText h m s f)) 2 name) 3 args) 4
        ((c :: t).takeWhile (· != '<'))) :=
  matchRe_headPart U hh hm hs hf hname hargs (by simp [hcs]) (matchRe_resultPart U c hc t _)

/-- After the result group the rest of a match never sets the duration group. -/
theorem resultPart_keeps_duration :
    Keeps 5 (matchRe U (.cat [.group 4 (.plus (.noneOf '<')), .opt durationPart])
      (fun _ caps => some caps)) := by
  rintro (_ | ⟨c, t⟩) caps res h
  · cases h
  · by_cases hc : c = '<'
    · subst hc
      simp [matchRe_group, matchRe_plus_of_not] at h
    · rw [matchRe_resultPart U c hc] at h
      cases h
      simp [capture]

/-- No match of the trace pattern sets its duration group. -/
theorem tracePattern_keeps_duration : Keeps 5 (matchRe U tracePattern (fun _ caps => some caps)) :=
  matchRe_keeps U headPart (show headPart.hasGroup 5 = false from rfl) (resultPart_keeps_duration U)

/-! ### The groups of a match -/

/-- `match.groups()` for the trace pattern: timestamp, call, arguments, result, duration. -/
structure TraceMatch where
  timestamp : String
  syscall : String
  args : String
  result : String
  duration : Option String
  deriving DecidableEq

/-- `re.match(pattern, line)` and `match.groups()`, `syscall_tracer.py:108–112`; groups 1–4
lie outside every optional part, so they take part in every match. -/
def matchTraceLine (line : String) : Option TraceMatch :=
  (reMatch U tracePattern line).map fun caps =>
    ⟨⟨(caps 1).getD []⟩, ⟨(caps 2).getD []⟩, ⟨(caps 3).getD []⟩, ⟨(caps 4).getD []⟩,
      (caps 5).map String.mk⟩

/-- A line in strace's format from its fields: `h:m:s.f name(args) = result`. -/
def traceLine (h m s f name args result : String) : String :=
  h ++ ":" ++ m ++ ":" ++ s ++ "." ++ f ++ " " ++ name ++ "(" ++ args ++ ") = " ++ result

/-- Every match of the trace pattern leaves the duration group out. -/
theorem matchTraceLine_duration {line : String} {g : TraceMatch}
    (h : matchTraceLine U line = some g) : g.duration = none := by
  simp only [matchTraceLine, Option.map_eq_some'] at h
  obtain ⟨caps, hm, rfl⟩ := h
  simp [tracePattern_keeps_duration U _ _ _ hm]

/-- The fields a match reads back from a line in strace's format; the result is the text
after `= ` up to its first `<`. -/
theorem matchTraceLine_traceLine {h m s f name args r : String} {c : Char} {t : List Char}
    (hh : IsRun U.isDigit h.toList) (hm : IsRun U.isDigit m.toList)
    (hs : IsRun U.isDigit s.toList) (hf : IsRun U.isDigit f.toList)
    (hname : IsRun U.isWord name.toList) (hargs : ∀ c ∈ args.toList, c ≠ '\n' ∧ c ≠ ')')
    (hr : r.toList = c :: t) (hc : c ≠ '<') (hcs : U.isSpace c = false) :
    matchTraceLine U (traceLine h m s f name args r) =
      some ⟨h ++ ":" ++ m ++ ":" ++ s ++ "." ++ f, name, args,
        ⟨r.toList.takeWhile (· != '<')⟩, none⟩ := by
  have hline : (traceLine h m s f name args r).toList = timestampText h.toList m.toList s.toList
      f.toList ++ ' ' :: (name.toList ++ '(' :: (args.toList ++ ')' :: ' ' :: '=' :: ' ' :: c :: t)) := by
    simp [traceLine, timestampText, String.toList, ← hr]
  simp only [matchTraceLine, reMatch, hline, matchRe_tracePattern U hh hm hs hf hname hargs hc hcs,
    Option.map_some', hr]
  simp [capture, timestampText, String.ext_iff, String.toList]


/-! ### What the pattern accepts -/

/-- A timestamp `h:m:s.f` of four digit runs. -/
def IsTimestamp (ts : List Char) : Prop :=
  ∃ h m s f, IsRun U.isDigit h ∧ IsRun U.isDigit m ∧ IsRun U.isDigit s ∧ IsRun U.isDigit f ∧
    ts = timestampText h m s f

/-- A run of a class, then the literal `c`, then the rest. -/
theorem matches_plus_lit {cls : CharClass} {c : Char} {r : Regex} {u : List Char}
    {caps caps' : Captures} (h : Matches U (.seq (.plus cls) (.seq (.lit c) r)) u caps caps') :
    ∃ a b, u = a ++ c :: b ∧ IsRun (cls.test U) a ∧ Matches U r b caps caps' := by
  obtain ⟨a, _, _, rfl, ha, t⟩ := h.seq_inv
  obtain ⟨_, b, _, rfl, hc, hr⟩ := t.seq_inv
  obtain ⟨ra, rfl⟩ := ha.plus_inv
  obtain ⟨rfl, rfl⟩ := hc.lit_inv
  exact ⟨a, b, rfl, ra, hr⟩

/-- The timestamp part of the pattern reads a timestamp and records nothing. -/
theorem matches_timestampPart {u : List Char} {caps caps' : Captures}
    (h : Matches U timestampPart u caps caps') : IsTimestamp U u ∧ caps' = caps := by
  simp only [timestampPart, Regex.cat_cons, Regex.cat_nil] at h
  obtain ⟨_, _, rfl, rh, t₁⟩ := matches_plus_lit U h
  obtain ⟨_, _, rfl, rm, t₂⟩ := matches_plus_lit U t₁
  obtain ⟨_, _, rfl, rs, t₃⟩ := matches_plus_lit U t₂
  obtain ⟨_, _, _, rfl, hf, t₄⟩ := t₃.seq_inv
  obtain ⟨rf, rfl⟩ := hf.plus_inv
  obtain ⟨rfl, rfl⟩ := t₄.eps_inv
  exact ⟨⟨_, _, _, _, rh, rm, rs, rf, by simp [timestampText]⟩, rfl⟩

/-- What `headPart` reads: a timestamp, blanks, the call, its arguments in parentheses,
blanks, `=` and blanks; it captures the timestamp, the call and the arguments. -/
theorem matches_headPart {u : List Char} {caps caps' : Captures}
    (h : Matches U headPart u caps caps') :
    ∃ ts sp₁ name args sp₂ sp₃, IsTimestamp U ts ∧ IsRun U.isSpace sp₁ ∧ IsRun U.isWord name ∧
      (∀ c ∈ args, c ≠ '\n') ∧ IsRun U.isSpace sp₂ ∧ IsRun U.isSpace sp₃ ∧
      u = ts ++ sp₁ ++ name ++ '(' :: args ++ ')' :: sp₂ ++ '=' :: sp₃ ∧
      caps' = capture (capture (capture caps 1 ts) 2 name) 3 args := by
  simp only [headPart, Regex.cat_cons, Regex.cat_nil] at h
  obtain ⟨ts, _, _, rfl, hts, t₁⟩ := h.seq_inv
  obtain ⟨sp₁, _, _, rfl, hsp₁, t₂⟩ := t₁.seq_inv
  obtain ⟨name, _, _, rfl, hname, t₃⟩ := t₂.seq_inv
  obtain ⟨_, _, _, rfl, h₁, t₄⟩ := t₃.seq_inv
  obtain ⟨args, _, _, rfl, hargs, t₅⟩ := t₄.seq_inv
  obtain ⟨_, _, _, rfl, h₂, t₆⟩ := t₅.seq_inv
  obtain ⟨sp₂, _, rfl, rsp₂, t₇⟩ := matches_plus_lit U t₆
  obtain ⟨sp₃, _, _, rfl, hsp₃, h⟩ := t₇.seq_inv
  obtain ⟨_, gts, rfl⟩ := hts.group_inv
  obtain ⟨rts, rfl⟩ := matches_timestampPart U gts
  obtain ⟨rsp₁, rfl⟩ := hsp₁.plus_inv
  obtain ⟨_, gname, rfl⟩ := hname.group_inv
  obtain ⟨rname, rfl⟩ := gname.plus_inv
  obtain ⟨rfl, rfl⟩ := h₁.lit_inv
  obtain ⟨_, gargs, rfl⟩ := hargs.group_inv
  obtain ⟨rargs, rfl⟩ := gargs.lazyStar_inv
  obtain ⟨rfl, rfl⟩ := h₂.lit_inv
  obtain ⟨rsp₃, rfl⟩ := hsp₃.plus_inv
  obtain ⟨rfl, rfl⟩ := h.eps_inv
  exact ⟨ts, sp₁, name, args, sp₂, sp₃, rts, rsp₁, rname, fun c hc => by simpa using rargs c hc,
    rsp₂, rsp₃, by simp, rfl⟩

/-- Every line the pattern matches is in strace's format, up to the widths of its blanks:
the captured timestamp, blanks, the captured call, its captured arguments in parentheses,
blanks, `=`, blanks and the captured result, which has no `<`; anything may follow. -/
theorem matchTraceLine_sound {line : String} {g : TraceMatch}
    (h : matchTraceLine U line = some g) :
    IsTimestamp U g.timestamp.toList ∧ IsRun U.isWord g.syscall.toList ∧
      (∀ c ∈ g.args.toList, c ≠ '\n') ∧ IsRun (· != '<') g.result.toList ∧
      ∃ sp₁ sp₂ sp₃ rest, IsRun U.isSpace sp₁ ∧ IsRun U.isSpace sp₂ ∧ IsRun U.isSpace sp₃ ∧
        line.toList = g.timestamp.toList ++ sp₁ ++ g.syscall.toList ++ '(' :: g.args.toList ++
          ')' :: sp₂ ++ '=' :: sp₃ ++ g.result.toList ++ rest := by
  simp only [matchTraceLine, Option.map_eq_some'] at h
  obtain ⟨caps, hm, rfl⟩ := h
  obtain ⟨_, v, hline, hM⟩ := reMatch_sound U hm
  simp only [tracePattern, Regex.cat_cons, Regex.cat_nil] at hM
  obtain ⟨_, _, _, rfl, hhead, t₁⟩ := hM.seq_inv
  obtain ⟨res, _, _, rfl, hres, t₂⟩ := t₁.seq_inv
  obtain ⟨opt, _, _, rfl, hopt, t₃⟩ := t₂.seq_inv
  obtain ⟨rfl, rfl⟩ := t₃.eps_inv
  obtain ⟨ts, sp₁, name, args, sp₂, sp₃, hts, hsp₁, hname, hargs, hsp₂, hsp₃, rfl, rfl⟩ :=
    matches_headPart U hhead
  obtain ⟨_, gres, rfl⟩ := hres.group_inv
  obtain ⟨rres, rfl⟩ := gres.plus_inv
  have hkeep : ∀ i, durationPart.hasGroup i = false → caps i =
      capture (capture (capture (capture (fun _ => none) 1 ts) 2 name) 3 args) 4 res i := by
    intro i hi
    rcases hopt.opt_inv with hopt | ⟨-, rfl⟩
    · exact hopt.keeps U hi
    · rfl
  simp only [hkeep 1 rfl, hkeep 2 rfl, hkeep 3 rfl, hkeep 4 rfl, capture]
  refine ⟨hts, hname, hargs, rres, sp₁, sp₂, sp₃, opt ++ v, hsp₁, hsp₂, hsp₃, ?_⟩
  simpa using hline

/-- The match of a `close` line splits it into a timestamp, a call name, its arguments and its
result. -/
theorem matchTraceLine_sound_close :
    matchTraceLine .ascii "12:00:00.000001 close(3) = 0\n" =
        some ⟨"12:00:00.000001", "close", "3", "0\n", none⟩ ∧
      IsTimestamp .ascii "12:00:00.000001".toList ∧ IsRun UnicodeClasses.ascii.isWord "close".toList ∧
      (∀ c ∈ "3".toList, c ≠ '\n') ∧ IsRun (· != '<') "0\n".toList ∧
      ∃ sp₁ sp₂ sp₃ rest, IsRun UnicodeClasses.ascii.isSpace sp₁ ∧
        IsRun UnicodeClasses.ascii.isSpace sp₂ ∧ IsRun UnicodeClasses.ascii.isSpace sp₃ ∧
        "12:00:00.000001 close(3) = 0\n".toList = "12:00:00.000001".toList ++ sp₁ ++
          "close".toList ++ '(' :: "3".toList ++ ')' :: sp₂ ++ '=' :: sp₃ ++ "0\n".toList ++ rest :=
  ⟨rfl, @matchTraceLine_sound .ascii "12:00:00.000001 close(3) = 0\n"
    ⟨"12:00:00.000001", "close", "3", "0\n", none⟩ rfl⟩


/-- A run of a class ends at the first character outside it. -/
theorem run_append_cons_inj {p : Char → Bool} {u u' v v' : List Char} {a b : Char}
    (hu : ∀ c ∈ u, p c = true) (hu' : ∀ c ∈ u', p c = true) (ha : p a = false)
    (hb : p b = false) (h : u ++ a :: v = u' ++ b :: v') : u = u' ∧ a = b := by
  have hrun : ∀ {u v : List Char} {a : Char}, (∀ c ∈ u, p c = true) → p a = false →
      (u ++ a :: v).takeWhile p = u := fun hu ha => by
    rw [List.takeWhile_append_of_pos hu, List.takeWhile_cons_of_neg (by simp [ha]),
      List.append_nil]
  have huu : u = u' := by rw [← hrun (v := v) hu ha, h, hrun hu' hb]
  subst huu
  exact ⟨rfl, (List.cons.inj (List.append_cancel_left h)).1⟩

/-- A line that starts with a run of digits and a blank never matches: the timestamp's first
digit run must end at a colon. strace `-f` writing to a file puts the pid and blanks before
each line. -/
theorem matchTraceLine_pid_prefixed {line : String} {pid rest : List Char}
    (hpid : ∀ c ∈ pid, U.isDigit c = true) (hline : line.toList = pid ++ ' ' :: rest) :
    matchTraceLine U line = none := by
  cases hm : matchTraceLine U line with
  | none => rfl
  | some g =>
    simp only [matchTraceLine, Option.map_eq_some'] at hm
    obtain ⟨caps, hm, -⟩ := hm
    obtain ⟨_, v, hl, hM⟩ := reMatch_sound U hm
    simp only [tracePattern, Regex.cat_cons] at hM
    obtain ⟨_, _, _, rfl, hhead, -⟩ := hM.seq_inv
    obtain ⟨_, _, _, _, _, _, ⟨h, m, s, f, hh, -, -, -, rfl⟩, -, -, -, -, -, rfl, -⟩ :=
      matches_headPart U hhead
    rw [hline] at hl
    simp only [timestampText, List.append_assoc, List.cons_append] at hl
    exact absurd (run_append_cons_inj hpid hh.2 U.blank_not_digit U.colon_not_digit hl).2
      (by decide)

end OsCompas.Tracer
