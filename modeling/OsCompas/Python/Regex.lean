import Mathlib.Data.List.Basic

/-!
# The `re` fragment of the trace pattern

Python's `re.match` on the constructs of the pattern of `syscall_tracer.py:108`, as `sre`'s
backtracking search in continuation-passing style, with the Unicode classes as
parameters. `Matches` says what each construct reads, and the matcher is sound for it.
-/

namespace OsCompas.Python

/-- What `re` reads from the Unicode database for a character beyond ASCII: whether it
is in `\d`, `\w` or `\s`. No whitespace character is a word character. -/
structure UnicodeClasses where
  digit : Char → Bool
  word : Char → Bool
  space : Char → Bool
  word_not_space : ∀ c, word c = true → space c = false

namespace UnicodeClasses

variable (U : UnicodeClasses)

/-- `\d` of a `str` pattern: on ASCII the code points 0x30–0x39. -/
def isDigit (c : Char) : Bool :=
  if c.toNat < 0x80 then 0x30 ≤ c.toNat && c.toNat ≤ 0x39 else U.digit c

/-- `\w` of a `str` pattern: on ASCII the digits, the letters and `_`. -/
def isWord (c : Char) : Bool :=
  if c.toNat < 0x80 then
    (0x30 ≤ c.toNat && c.toNat ≤ 0x39) || (0x41 ≤ c.toNat && c.toNat ≤ 0x5A) || c.toNat = 0x5F ||
      (0x61 ≤ c.toNat && c.toNat ≤ 0x7A)
  else U.word c

/-- `\s` of a `str` pattern: on ASCII the code points 0x09–0x0D, 0x1C–0x1F and 0x20. -/
def isSpace (c : Char) : Bool :=
  if c.toNat < 0x80 then
    (0x09 ≤ c.toNat && c.toNat ≤ 0x0D) || (0x1C ≤ c.toNat && c.toNat ≤ 0x1F) || c.toNat = 0x20
  else U.space c

/-- `:` is not in `\d`. -/
theorem colon_not_digit : U.isDigit ':' = false := rfl

/-- `.` is not in `\d`. -/
theorem dot_not_digit : U.isDigit '.' = false := rfl

/-- A blank is not in `\d`. -/
theorem blank_not_digit : U.isDigit ' ' = false := rfl

/-- A blank is in `\s`. -/
theorem blank_is_space : U.isSpace ' ' = true := rfl

/-- `<` is not in `\s`. -/
theorem lt_not_space : U.isSpace '<' = false := rfl

/-- `=` is not in `\s`. -/
theorem eq_not_space : U.isSpace '=' = false := rfl

/-- `(` is not in `\w`. -/
theorem paren_not_word : U.isWord '(' = false := rfl

/-- `\w` and `\s` are disjoint. -/
theorem word_not_space' (c : Char) (h : U.isWord c = true) : U.isSpace c = false := by
  unfold isWord at h
  unfold isSpace
  split
  · simp only [if_pos ‹_›, Bool.or_eq_true, Bool.and_eq_true, decide_eq_true_eq] at h
    simp only [Bool.or_eq_false_iff, Bool.and_eq_false_iff, decide_eq_false_iff_not]
    omega
  · simp only [if_neg ‹_›] at h
    exact U.word_not_space c h

/-- Only ASCII membership, enough to run the model on ASCII traces. -/
def ascii : UnicodeClasses := ⟨fun _ => false, fun _ => false, fun _ => false, fun _ _ => rfl⟩

end UnicodeClasses

/-- A character class of the pattern. -/
inductive CharClass
  | digit
  | word
  | space
  /-- `.` without `DOTALL`: every character but a newline. -/
  | any
  /-- `[^c]`. -/
  | noneOf (c : Char)

/-- Membership in a class. -/
def CharClass.test (U : UnicodeClasses) : CharClass → Char → Bool
  | .digit, c => U.isDigit c
  | .word, c => U.isWord c
  | .space, c => U.isSpace c
  | .any, c => c != '\n'
  | .noneOf d, c => c != d

/-- The class `\d` tests `isDigit`. -/
@[simp] theorem CharClass.test_digit (U : UnicodeClasses) : CharClass.digit.test U = U.isDigit :=
  rfl

/-- The class `\w` tests `isWord`. -/
@[simp] theorem CharClass.test_word (U : UnicodeClasses) : CharClass.word.test U = U.isWord := rfl

/-- The class `\s` tests `isSpace`. -/
@[simp] theorem CharClass.test_space (U : UnicodeClasses) : CharClass.space.test U = U.isSpace :=
  rfl

/-- The class `.` takes every character but a newline. -/
@[simp] theorem CharClass.test_any (U : UnicodeClasses) : CharClass.any.test U = (· != '\n') :=
  rfl

/-- The class `[^d]` takes every character but `d`. -/
@[simp] theorem CharClass.test_noneOf (U : UnicodeClasses) (d : Char) :
    (CharClass.noneOf d).test U = (· != d) := rfl

/-- The regular expressions of the fragment. -/
inductive Regex
  | eps
  | lit (c : Char)
  /-- `k+`, greedy. -/
  | plus (k : CharClass)
  /-- `k*?`, lazy. -/
  | lazyStar (k : CharClass)
  /-- The capturing group number `i`. -/
  | group (i : Nat) (r : Regex)
  /-- `(?:r)?`, greedy. -/
  | opt (r : Regex)
  | seq (r s : Regex)

/-- Concatenation of a list of patterns. -/
def Regex.cat : List Regex → Regex
  | [] => .eps
  | r :: rs => .seq r (cat rs)

/-- Captured text by group number; `none` for a group that did not participate. -/
abbrev Captures := Nat → Option (List Char)

/-- Record the text of group `i`. -/
def capture (caps : Captures) (i : Nat) (s : List Char) : Captures :=
  fun j => if j = i then some s else caps j

/-- The rest of a match: run on the unread input and the captures so far. -/
abbrev Cont := List Char → Captures → Option Captures

/-- Greedy repetition of a class: the longest run first, then one character shorter. -/
def greedy (p : Char → Bool) (k : Cont) : Cont
  | [], caps => k [] caps
  | c :: w, caps => (if p c then greedy p k w caps else none) <|> k (c :: w) caps

/-- Lazy repetition of a class: the shortest run first, then one character longer. -/
def lazy (p : Char → Bool) (k : Cont) : Cont
  | [], caps => k [] caps
  | c :: w, caps => k (c :: w) caps <|> (if p c then lazy p k w caps else none)

variable (U : UnicodeClasses)

/-- The backtracking matcher: `matchRe r k` matches `r`, then hands over to `k`. -/
def matchRe : Regex → Cont → Cont
  | .eps, k, w, caps => k w caps
  | .lit c, k, w, caps =>
    match w with
    | d :: w' => if d = c then k w' caps else none
    | [] => none
  | .plus cls, k, w, caps =>
    match w with
    | d :: w' => if cls.test U d then greedy (cls.test U) k w' caps else none
    | [] => none
  | .lazyStar cls, k, w, caps => lazy (cls.test U) k w caps
  | .group i r, k, w, caps =>
    matchRe r (fun w' caps' => k w' (capture caps' i (w.take (w.length - w'.length)))) w caps
  | .opt r, k, w, caps => matchRe r k w caps <|> k w caps
  | .seq r s, k, w, caps => matchRe r (matchRe s k) w caps

/-- `re.match(pattern, s)`: the captures of the first match at the start of `s`. -/
def reMatch (r : Regex) (s : String) : Option Captures :=
  matchRe U r (fun _ caps => some caps) s.toList (fun _ => none)

/-! ### One lemma per construct -/

/-- An empty concatenation passes the input to its continuation. -/
@[simp] theorem matchRe_cat_nil (k : Cont) : matchRe U (.cat []) k = k := rfl

/-- A concatenation matches its head, then the rest. -/
@[simp] theorem matchRe_cat_cons (r : Regex) (rs : List Regex) (k : Cont) :
    matchRe U (.cat (r :: rs)) k = matchRe U r (matchRe U (.cat rs) k) := rfl

/-- A literal consumes its own character. -/
@[simp] theorem matchRe_lit_self (c : Char) (k : Cont) (w : List Char) (caps : Captures) :
    matchRe U (.lit c) k (c :: w) caps = k w caps := by
  simp [matchRe]

/-- A `+` fails on empty input. -/
@[simp] theorem matchRe_plus_nil (cls : CharClass) (k : Cont) (caps : Captures) :
    matchRe U (.plus cls) k [] caps = none := rfl

/-- A `+` fails when the first character is not in its class. -/
theorem matchRe_plus_of_not {cls : CharClass} {d : Char} (h : cls.test U d = false)
    (k : Cont) (w : List Char) (caps : Captures) :
    matchRe U (.plus cls) k (d :: w) caps = none := by
  simp [matchRe, h]

/-- A group records the text its body consumed. -/
theorem matchRe_group (i : Nat) (r : Regex) (k : Cont) (w : List Char) (caps : Captures) :
    matchRe U (.group i r) k w caps =
      matchRe U r (fun w' caps' => k w' (capture caps' i (w.take (w.length - w'.length)))) w
        caps := rfl

/-- A skipped optional group hands the same input to the rest of the pattern. -/
theorem matchRe_opt_of_none {r : Regex} {k : Cont} {w : List Char} {caps : Captures}
    (h : matchRe U r k w caps = none) : matchRe U (.opt r) k w caps = k w caps := by
  simp [matchRe, h]

/-- A greedy run ends where the class stops holding, when the rest succeeds there. -/
theorem greedy_of_dropWhile {p : Char → Bool} {k : Cont} {w : List Char} {caps : Captures}
    {x : Captures} (h : k (w.dropWhile p) caps = some x) : greedy p k w caps = some x := by
  induction w with
  | nil => exact h
  | cons c w ih =>
    by_cases hc : p c
    · simp [greedy, hc, ih (by simpa [List.dropWhile, hc] using h)]
    · simpa [greedy, hc, List.dropWhile] using h

/-- `k+` on a run of `k` hands the input after the whole run to the rest. -/
theorem matchRe_plus_of {cls : CharClass} {c : Char} {w : List Char} {k : Cont}
    {caps x : Captures} (hc : cls.test U c = true)
    (h : k (w.dropWhile (cls.test U)) caps = some x) :
    matchRe U (.plus cls) k (c :: w) caps = some x := by
  simp only [matchRe, hc, if_true]
  exact greedy_of_dropWhile h

/-- `k+` on one character of `k` that is not followed by another. -/
theorem matchRe_plus_one {cls : CharClass} {c : Char} {w : List Char} {k : Cont}
    {caps x : Captures} (hc : cls.test U c = true) (hw : w.dropWhile (cls.test U) = w)
    (h : k w caps = some x) : matchRe U (.plus cls) k (c :: w) caps = some x :=
  matchRe_plus_of U hc (by rwa [hw])

/-- `k+` on a whole nonempty run `u` of `k`, before an input `w` that does not go on with `k`. -/
theorem matchRe_plus_run {cls : CharClass} {u w : List Char} {k : Cont} {caps x : Captures}
    (hu : u ≠ []) (hall : ∀ c ∈ u, cls.test U c = true) (hw : w.dropWhile (cls.test U) = w)
    (h : k w caps = some x) : matchRe U (.plus cls) k (u ++ w) caps = some x := by
  obtain ⟨c, u, rfl⟩ := List.exists_cons_of_ne_nil hu
  refine matchRe_plus_of U (hall c (List.mem_cons_self _ _)) ?_
  show k ((u ++ w).dropWhile (cls.test U)) caps = some x
  rwa [List.dropWhile_append_of_pos (fun a ha => hall a (List.mem_cons_of_mem _ ha)), hw]

/-- A lazy run passes over characters at which the rest fails. -/
theorem lazy_append {p : Char → Bool} {k : Cont} {u : List Char}
    (hu : ∀ c ∈ u, p c = true ∧ ∀ w' caps', k (c :: w') caps' = none)
    (w : List Char) (caps : Captures) : lazy p k (u ++ w) caps = lazy p k w caps := by
  induction u with
  | nil => rfl
  | cons c u ih =>
    obtain ⟨hp, hk⟩ := hu c (List.mem_cons_self c u)
    simp [lazy, hp, hk, ih fun d hd => hu d (List.mem_cons_of_mem c hd)]

/-- A lazy run stops as soon as the rest succeeds. -/
theorem lazy_of_some {p : Char → Bool} {k : Cont} {w : List Char} {caps x : Captures}
    (h : k w caps = some x) : lazy p k w caps = some x := by
  cases w <;> simp [lazy, h]

/-- The text a group captures when its body leaves the suffix `w` unread. -/
theorem take_sub_length_append (u w : List Char) :
    (u ++ w).take ((u ++ w).length - w.length) = u := by
  simp

/-- A group whose body reads exactly `u` before `w` captures `u`. -/
theorem matchRe_group_of {i : Nat} {r : Regex} {u w : List Char} {caps : Captures}
    (hr : ∀ (K : Cont) (y : Captures), K w caps = some y → matchRe U r K (u ++ w) caps = some y)
    {k : Cont} {x : Captures} (h : k w (capture caps i u) = some x) :
    matchRe U (.group i r) k (u ++ w) caps = some x := by
  rw [matchRe_group]
  exact hr _ _ (by rwa [take_sub_length_append])

/-- A lazy group followed by the literal `d` captures everything before the first `d`. -/
theorem matchRe_group_lazyStar_lit {i : Nat} {cls : CharClass} {d : Char} {u w : List Char}
    {k : Cont} {caps x : Captures} (hu : ∀ c ∈ u, cls.test U c = true ∧ c ≠ d)
    (h : k w (capture caps i u) = some x) :
    matchRe U (.group i (.lazyStar cls)) (matchRe U (.lit d) k) (u ++ d :: w) caps = some x := by
  rw [matchRe_group]
  simp only [matchRe]
  rw [lazy_append (fun c hc => ⟨(hu c hc).1, fun w' caps' => by simp [(hu c hc).2]⟩)]
  apply lazy_of_some
  simpa [take_sub_length_append] using h

/-! ### Groups a pattern never sets -/

/-- Group `i` occurs in the pattern. -/
def Regex.hasGroup (i : Nat) : Regex → Bool
  | .group j r => j = i || r.hasGroup i
  | .opt r => r.hasGroup i
  | .seq r s => r.hasGroup i || s.hasGroup i
  | _ => false

/-- Every success of `k` leaves group `i` as it found it. -/
def Keeps (i : Nat) (k : Cont) : Prop := ∀ w caps res, k w caps = some res → res i = caps i

/-- A success of `a <|> b` is a success of `a` or of `b`. -/
theorem keeps_orElse {i : Nat} {a b : Option Captures} {caps res : Captures}
    (ha : ∀ r, a = some r → r i = caps i) (hb : ∀ r, b = some r → r i = caps i)
    (h : (a <|> b) = some res) : res i = caps i := by
  cases a with
  | some r => exact Option.some.inj h ▸ ha r rfl
  | none => exact hb res h

/-- A greedy repetition keeps a group that its continuation keeps. -/
theorem greedy_keeps {i : Nat} {k : Cont} (hk : Keeps i k) (p : Char → Bool) :
    Keeps i (greedy p k) := by
  intro w
  induction w with
  | nil => exact hk []
  | cons c w ih =>
    intro caps res h
    refine keeps_orElse (fun r hr => ?_) (hk _ _) h
    split at hr
    · exact ih caps r hr
    · cases hr

/-- A lazy repetition keeps a group that its continuation keeps. -/
theorem lazy_keeps {i : Nat} {k : Cont} (hk : Keeps i k) (p : Char → Bool) :
    Keeps i (lazy p k) := by
  intro w
  induction w with
  | nil => exact hk []
  | cons c w ih =>
    intro caps res h
    refine keeps_orElse (hk _ _) (fun r hr => ?_) h
    split at hr
    · exact ih caps r hr
    · cases hr

/-- A pattern without group `i`, followed by a rest that keeps it, keeps group `i`. -/
theorem matchRe_keeps {i : Nat} (r : Regex) (hr : r.hasGroup i = false) {k : Cont}
    (hk : Keeps i k) : Keeps i (matchRe U r k) := by
  induction r generalizing k with
  | eps => exact hk
  | lit c =>
    rintro (_ | ⟨d, w⟩) caps res h
    · cases h
    · simp only [matchRe] at h
      split at h
      · exact hk _ _ _ h
      · cases h
  | plus cls =>
    rintro (_ | ⟨d, w⟩) caps res h
    · cases h
    · simp only [matchRe] at h
      split at h
      · exact greedy_keeps hk _ _ _ _ h
      · cases h
  | lazyStar cls => exact lazy_keeps hk _
  | group j r ih =>
    simp only [Regex.hasGroup, Bool.or_eq_false_iff, decide_eq_false_iff_not] at hr
    intro w caps res h
    refine ih hr.2 (fun w' caps' res' h' => ?_) w caps res h
    rw [hk _ _ _ h']
    simp [capture, Ne.symm hr.1]
  | opt r ih => exact fun w caps _ h => keeps_orElse (ih hr hk w caps) (hk w caps) h
  | seq r s ihr ihs =>
    simp only [Regex.hasGroup, Bool.or_eq_false_iff] at hr
    exact ihr hr.1 (ihs hr.2 hk)


/-! ### What a match reads -/

/-- `Matches r u caps caps'`: the pattern `r` reads exactly `u`, turning the captures
`caps` into `caps'`. The declarative reading of each construct, without `sre`'s order. -/
inductive Matches : Regex → List Char → Captures → Captures → Prop
  | eps (caps : Captures) : Matches .eps [] caps caps
  | lit (c : Char) (caps : Captures) : Matches (.lit c) [c] caps caps
  | plus {cls : CharClass} {u : List Char} (caps : Captures) (hu : u ≠ [])
      (hall : ∀ c ∈ u, cls.test U c = true) : Matches (.plus cls) u caps caps
  | lazyStar {cls : CharClass} {u : List Char} (caps : Captures)
      (hall : ∀ c ∈ u, cls.test U c = true) : Matches (.lazyStar cls) u caps caps
  | group {i : Nat} {r : Regex} {u : List Char} {caps caps' : Captures} :
      Matches r u caps caps' → Matches (.group i r) u caps (capture caps' i u)
  | optSome {r : Regex} {u : List Char} {caps caps' : Captures} :
      Matches r u caps caps' → Matches (.opt r) u caps caps'
  | optNone (r : Regex) (caps : Captures) : Matches (.opt r) [] caps caps
  | seq {r s : Regex} {u v : List Char} {caps caps' caps'' : Captures} :
      Matches r u caps caps' → Matches s v caps' caps'' → Matches (.seq r s) (u ++ v) caps caps''

/-- A greedy loop succeeds only after a run of its class. -/
theorem greedy_sound {p : Char → Bool} {k : Cont} {w : List Char} {caps x : Captures}
    (h : greedy p k w caps = some x) :
    ∃ u v, w = u ++ v ∧ (∀ c ∈ u, p c = true) ∧ k v caps = some x := by
  induction w with
  | nil => exact ⟨[], [], rfl, by simp, h⟩
  | cons c w ih =>
    rcases (Option.orElse_eq_some _ _ _).1 h with h | ⟨-, h⟩
    · split at h
      · obtain ⟨u, v, rfl, hu, hk⟩ := ih h
        exact ⟨c :: u, v, rfl, by simpa [*] using hu, hk⟩
      · cases h
    · exact ⟨[], c :: w, rfl, by simp, h⟩

/-- A lazy loop succeeds only after a run of its class. -/
theorem lazy_sound {p : Char → Bool} {k : Cont} {w : List Char} {caps x : Captures}
    (h : lazy p k w caps = some x) :
    ∃ u v, w = u ++ v ∧ (∀ c ∈ u, p c = true) ∧ k v caps = some x := by
  induction w with
  | nil => exact ⟨[], [], rfl, by simp, h⟩
  | cons c w ih =>
    rcases (Option.orElse_eq_some _ _ _).1 h with h | ⟨-, h⟩
    · exact ⟨[], c :: w, rfl, by simp, h⟩
    · split at h
      · obtain ⟨u, v, rfl, hu, hk⟩ := ih h
        exact ⟨c :: u, v, rfl, by simpa [*] using hu, hk⟩
      · cases h

/-- The matcher is sound: a success reads a prefix `u` that `r` matches, and the rest of the
pattern succeeds on what is left, from the captures the match of `u` leaves. -/
theorem matchRe_sound (r : Regex) {k : Cont} {w : List Char} {caps x : Captures}
    (h : matchRe U r k w caps = some x) :
    ∃ u v caps', w = u ++ v ∧ Matches U r u caps caps' ∧ k v caps' = some x := by
  induction r generalizing k w caps with
  | eps => exact ⟨[], w, caps, rfl, .eps caps, h⟩
  | lit c =>
    rcases w with _ | ⟨d, w⟩
    · cases h
    · simp only [matchRe] at h
      split at h
      · subst d
        exact ⟨[c], w, caps, rfl, .lit c caps, h⟩
      · cases h
  | plus cls =>
    rcases w with _ | ⟨d, w⟩
    · cases h
    · simp only [matchRe] at h
      split at h
      · obtain ⟨u, v, rfl, hu, hk⟩ := greedy_sound h
        exact ⟨d :: u, v, caps, rfl, .plus caps (List.cons_ne_nil _ _) (by simpa [*] using hu), hk⟩
      · cases h
  | lazyStar cls =>
    obtain ⟨u, v, rfl, hu, hk⟩ := lazy_sound h
    exact ⟨u, v, caps, rfl, .lazyStar caps hu, hk⟩
  | group i r ih =>
    obtain ⟨u, v, caps', rfl, hr, hk⟩ := ih h
    exact ⟨u, v, _, rfl, .group hr, by rwa [take_sub_length_append] at hk⟩
  | opt r ih =>
    rcases (Option.orElse_eq_some _ _ _).1 h with h | ⟨-, h⟩
    · obtain ⟨u, v, caps', rfl, hr, hk⟩ := ih h
      exact ⟨u, v, caps', rfl, .optSome hr, hk⟩
    · exact ⟨[], w, caps, rfl, .optNone r caps, h⟩
  | seq r s ihr ihs =>
    obtain ⟨u, v₁, caps₁, rfl, hr, h₁⟩ := ihr h
    obtain ⟨u₂, v, caps₂, rfl, hs, hk⟩ := ihs h₁
    exact ⟨u ++ u₂, v, caps₂, (List.append_assoc _ _ _).symm, .seq hr hs, hk⟩

/-- `re.match` succeeds only on a string that starts with a text the pattern matches, and
returns the captures of that match. -/
theorem reMatch_sound {r : Regex} {s : String} {caps : Captures} (h : reMatch U r s = some caps) :
    ∃ u v, s.toList = u ++ v ∧ Matches U r u (fun _ => none) caps := by
  obtain ⟨u, v, caps', hs, hr, hk⟩ := matchRe_sound U r h
  cases hk
  exact ⟨u, v, hs, hr⟩

/-- A match of a pattern without group `i` leaves group `i` as it found it. -/
theorem Matches.keeps {r : Regex} {u : List Char} {caps caps' : Captures} {i : Nat}
    (h : Matches U r u caps caps') (hr : r.hasGroup i = false) : caps' i = caps i := by
  induction h with
  | group _ ih =>
    simp only [Regex.hasGroup, Bool.or_eq_false_iff, decide_eq_false_iff_not] at hr
    simp [capture, Ne.symm hr.1, ih hr.2]
  | optSome _ ih => exact ih hr
  | seq _ _ ihr ihs =>
    simp only [Regex.hasGroup, Bool.or_eq_false_iff] at hr
    rw [ihs hr.2, ihr hr.1]
  | _ => rfl


/-- An empty concatenation is the empty pattern. -/
theorem Regex.cat_nil : Regex.cat [] = .eps := rfl

/-- A concatenation is its head followed by the rest. -/
theorem Regex.cat_cons (r : Regex) (rs : List Regex) :
    Regex.cat (r :: rs) = .seq r (.cat rs) := rfl

/-! Inverting `Matches`, one lemma per construct. -/

section Inversion

variable {U} {u : List Char} {caps caps' : Captures}

/-- The empty pattern reads nothing. -/
theorem Matches.eps_inv (h : Matches U .eps u caps caps') : u = [] ∧ caps' = caps := by
  cases h; exact ⟨rfl, rfl⟩

/-- A literal reads its character. -/
theorem Matches.lit_inv {c : Char} (h : Matches U (.lit c) u caps caps') :
    u = [c] ∧ caps' = caps := by
  cases h; exact ⟨rfl, rfl⟩

/-- A `+` reads a nonempty run of its class. -/
theorem Matches.plus_inv {cls : CharClass} (h : Matches U (.plus cls) u caps caps') :
    (u ≠ [] ∧ ∀ c ∈ u, cls.test U c = true) ∧ caps' = caps := by
  cases h; exact ⟨⟨‹_›, ‹_›⟩, rfl⟩

/-- A `*?` reads a run of its class. -/
theorem Matches.lazyStar_inv {cls : CharClass} (h : Matches U (.lazyStar cls) u caps caps') :
    (∀ c ∈ u, cls.test U c = true) ∧ caps' = caps := by
  cases h; exact ⟨‹_›, rfl⟩

/-- A group reads what its body reads and records it. -/
theorem Matches.group_inv {i : Nat} {r : Regex} (h : Matches U (.group i r) u caps caps') :
    ∃ caps₁, Matches U r u caps caps₁ ∧ caps' = capture caps₁ i u := by
  cases h; exact ⟨_, ‹_›, rfl⟩

/-- A `?` reads what its body reads, or nothing. -/
theorem Matches.opt_inv {r : Regex} (h : Matches U (.opt r) u caps caps') :
    Matches U r u caps caps' ∨ u = [] ∧ caps' = caps := by
  cases h
  · exact .inl ‹_›
  · exact .inr ⟨rfl, rfl⟩

/-- A sequence reads what its first part reads, then what its second reads. -/
theorem Matches.seq_inv {r s : Regex} (h : Matches U (.seq r s) u caps caps') :
    ∃ u₁ u₂ caps₁, u = u₁ ++ u₂ ∧ Matches U r u₁ caps caps₁ ∧ Matches U s u₂ caps₁ caps' := by
  cases h; exact ⟨_, _, _, rfl, ‹_›, ‹_›⟩

end Inversion

end OsCompas.Python
