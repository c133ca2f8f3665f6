import ScMachine.TextEdits
import ScMachine.ParseNumber
import ScMachine.ScsParser
import Mathlib.Data.List.DropRight

/-! Texts are unescaped, trimmed and replaced (`UnescapeContent` of `scs_parser.cpp`, `StringUtils` of
`sc_utils.cpp`). -/
namespace ScMachine.Utils
open ScMachine.Text

/-! `UnescapeContent` as the parser runs it. -/

/-- A character that a backslash escapes. -/
def isEscaped (c : Char) : Prop := c = '\\' ∨ c = '[' ∨ c = ']'

instance (c : Char) : Decidable (isEscaped c) := inferInstanceAs (Decidable (_ ∨ _ ∨ _))

/-- The text with a backslash before every backslash and square bracket. -/
def escapeContent (s : List Char) : List Char :=
  s.flatMap fun c => if isEscaped c then ['\\', c] else [c]

/-- The body of the loop, on `result` and `pos`. -/
def unescapeBody : List Char × ℕ → (List Char × ℕ) ⊕ List Char
  | (result, pos) =>
    match find result ['\\'] pos with
    | none => .inr result
    | some pos =>
      let nextSymbol := result.getD (pos+1) '\x00'
      .inl (if pos < result.length-1 ∧ isEscaped nextSymbol then replace result pos 2 [nextSymbol]
        else result, pos+1)

/-- `UnescapeContent` of at most as many rounds. -/
def unescapeContentLoop (fuel : ℕ) (content : List Char) : Option (List Char) :=
  loop unescapeBody fuel (content, 0)

/-- What is written for a backslash and what stands behind it, and what is left. -/
def unescapeNext : List Char → List Char × List Char
  | c :: cs => if isEscaped c then ([c], cs) else (['\\'], c :: cs)
  | [] => (['\\'], [])

/-- What a round writes, and what is left. -/
def unescapeEdit (rest : List Char) : Option (List Char × List Char) :=
  (findFirst ['\\'] rest).map fun n =>
    (rest.take n ++ (unescapeNext (rest.drop (n+1))).1, (unescapeNext (rest.drop (n+1))).2)

section
variable {c : Char} {cs s rest : List Char} {n fuel : ℕ}

theorem unescapeContent_escaped (h : isEscaped c) :
    Scs.unescapeContent ('\\' :: c :: cs) = c :: Scs.unescapeContent cs := by
  rw [Scs.unescapeContent]
  exact if_pos h

theorem unescapeContent_notEscaped (h : ¬ isEscaped c) :
    Scs.unescapeContent ('\\' :: c :: cs) = '\\' :: Scs.unescapeContent (c :: cs) := by
  rw [Scs.unescapeContent]
  exact if_neg h

theorem unescapeContent_plain (h : c ≠ '\\') :
    Scs.unescapeContent (c :: cs) = c :: Scs.unescapeContent cs := by
  rw [Scs.unescapeContent]
  intro _ _ heq _
  exact h heq

theorem unescapeContent_append {pre : List Char} (h : '\\' ∉ pre) :
    Scs.unescapeContent (pre ++ s) = pre ++ Scs.unescapeContent s := by
  induction pre with
  | nil => rfl
  | cons c pre ih =>
    have hc : c ≠ '\\' := fun heq => h (heq ▸ List.mem_cons_self)
    rw [List.cons_append, unescapeContent_plain hc, ih fun hmem => h (List.mem_cons_of_mem _ hmem)]
    rfl

/-- A round meets a backslash, unless there is none. -/
theorem unescapeEdit_cases (rest : List Char) :
    findFirst ['\\'] rest = none ∧ '\\' ∉ rest ∧ unescapeEdit rest = none ∨
      ∃ pre tail, rest = pre ++ '\\' :: tail ∧ '\\' ∉ pre ∧ findFirst ['\\'] rest = some pre.length ∧
        unescapeEdit rest = some (pre ++ (unescapeNext tail).1, (unescapeNext tail).2) := by
  cases hfind : findFirst ['\\'] rest with
  | none =>
    refine Or.inl ⟨rfl, findFirst_singleton_none hfind, ?_⟩
    unfold unescapeEdit
    rw [hfind, Option.map_none]
  | some n =>
    obtain ⟨pre, tail, rfl, hnot, rfl⟩ := findFirst_singleton hfind
    refine Or.inr ⟨pre, tail, rfl, hnot, rfl, ?_⟩
    have hdrop : (pre ++ '\\' :: tail).drop (pre.length+1) = tail := by
      rw [← List.drop_drop, List.drop_left, List.drop_succ_cons, List.drop_zero]
    unfold unescapeEdit
    rw [hfind, Option.map_some, List.take_left, hdrop]

theorem unescapeNext_cons (c : Char) (cs : List Char) :
    unescapeNext (c :: cs) = if isEscaped c then ([c], cs) else (['\\'], c :: cs) := rfl

theorem unescapeNext_shrinks (tail : List Char) : (unescapeNext tail).2.length ≤ tail.length := by
  cases tail with
  | nil => exact le_rfl
  | cons c cs =>
    rw [unescapeNext_cons]
    split_ifs
    · exact Nat.le_succ _
    · exact le_rfl

theorem unescapeContent_next (tail : List Char) :
    Scs.unescapeContent ('\\' :: tail) =
      (unescapeNext tail).1 ++ Scs.unescapeContent (unescapeNext tail).2 := by
  cases tail with
  | nil => rfl
  | cons c cs =>
    rw [unescapeNext_cons]
    by_cases hc : isEscaped c
    · rw [unescapeContent_escaped hc, if_pos hc]
      rfl
    · rw [unescapeContent_notEscaped hc, if_neg hc]
      rfl

/-- The round in place. -/
theorem unescapeBody_edit (done pre tail : List Char)
    (hfind : findFirst ['\\'] (pre ++ '\\' :: tail) = some pre.length) :
    unescapeBody (done ++ (pre ++ '\\' :: tail), done.length) =
      .inl (done ++ (pre ++ (unescapeNext tail).1) ++ (unescapeNext tail).2,
        (done ++ (pre ++ (unescapeNext tail).1)).length) := by
  have hlen : (done ++ (pre ++ '\\' :: tail)).length = done.length+pre.length+1+tail.length := by
    simp only [List.length_append, List.length_cons]
    omega
  have hnext : (done ++ (pre ++ '\\' :: tail)).getD (done.length+pre.length+1) '\x00' =
      tail.getD 0 '\x00' := by
    rw [← List.append_assoc, ← List.length_append, List.getD_append_right _ _ _ _ (Nat.le_succ _)]
    simp
  have hpos : (done ++ (pre ++ ['\\'])).length = done.length+pre.length+1 := by
    simp only [List.length_append, List.length_singleton]
    omega
  unfold unescapeBody
  simp only [find_behind, hfind, Option.map_some, hnext, hlen]
  cases tail with
  | nil =>
    rw [if_neg fun h => absurd h.1 (by simp)]
    change _ = Sum.inl (done ++ (pre ++ ['\\']) ++ [], (done ++ (pre ++ ['\\'])).length)
    rw [hpos, List.append_nil]
  | cons c cs =>
    have hlt : done.length+pre.length < done.length+pre.length+1+(c :: cs).length-1 := by
      rw [List.length_cons]
      omega
    rw [List.getD_cons_zero, unescapeNext_cons]
    by_cases hc : isEscaped c
    · have hreplace := replace_behind done pre ['\\', c] cs [c] rfl
      rw [if_pos ⟨hlt, hc⟩, if_pos hc]
      refine congrArg Sum.inl (Prod.ext ?_ ?_)
      · exact hreplace.trans (by rw [List.append_assoc done])
      · simp only [List.length_append, List.length_singleton]
        omega
    · rw [if_neg fun h => hc h.2, if_neg hc, hpos]
      refine congrArg Sum.inl (Prod.ext ?_ rfl)
      simp only [List.append_assoc, List.singleton_append]

/-- The loop in place is the single pass, and has undone the escaping. -/
theorem unescapeContentLoop_returns (content : List Char) (fuel : ℕ) (hfuel : content.length < fuel) :
    unescapeContentLoop fuel content = some (Scs.unescapeContent content) := by
  have h := @loop_edits _ unescapeBody unescapeEdit Scs.unescapeContent ?_ ?_ ?_ ?_
    content [] fuel hfuel
  · exact h
  · intro done rest hnone
    rcases unescapeEdit_cases rest with ⟨hfind, _, _⟩ | ⟨pre, tail, _, _, _, hsome⟩
    · unfold unescapeBody
      simp only [find_behind, hfind, Option.map_none]
    · rw [hnone] at hsome
      cases hsome
  · intro done rest out rest' hedit
    rcases unescapeEdit_cases rest with ⟨_, _, hnone⟩ | ⟨pre, tail, rfl, _, hfind, hsome⟩
    · rw [hedit] at hnone
      cases hnone
    · rw [hedit] at hsome
      cases hsome
      exact unescapeBody_edit done pre tail hfind
  · intro rest out rest' hedit
    rcases unescapeEdit_cases rest with ⟨_, _, hnone⟩ | ⟨pre, tail, rfl, _, _, hsome⟩
    · rw [hedit] at hnone
      cases hnone
    · rw [hedit] at hsome
      cases hsome
      have hle := unescapeNext_shrinks tail
      simp only [List.length_append, List.length_cons]
      omega
  · intro rest
    rcases unescapeEdit_cases rest with ⟨_, hnot, hnone⟩ | ⟨pre, tail, rfl, hnot, _, hsome⟩
    · have happ := @unescapeContent_append [] rest hnot
      rw [List.append_nil] at happ
      rw [hnone, happ]
      exact List.append_nil rest
    · rw [hsome, unescapeContent_append hnot, unescapeContent_next]
      exact (List.append_assoc _ _ _).symm

theorem unescapeContent_escape (s : List Char) : Scs.unescapeContent (escapeContent s) = s := by
  induction s with
  | nil => rfl
  | cons c s ih =>
    have hcons : escapeContent (c :: s) =
        (if isEscaped c then ['\\', c] else [c]) ++ escapeContent s := rfl
    rw [hcons]
    by_cases hc : isEscaped c
    · rw [if_pos hc]
      exact (unescapeContent_escaped hc).trans (congrArg (c :: ·) ih)
    · rw [if_neg hc]
      exact (unescapeContent_plain fun heq => hc (Or.inl heq)).trans (congrArg (c :: ·) ih)

/-- Unescaping ends on every text; it is the pass from left to right that drops the backslash before
a backslash or a square bracket, and it inverts the escaping. -/
theorem unescapeContent_exact (content : List Char) :
    (∃ n, ∀ fuel ≥ n, unescapeContentLoop fuel content = some (Scs.unescapeContent content)) ∧
      ∃ n, ∀ fuel ≥ n, unescapeContentLoop fuel (escapeContent content) = some content := by
  refine ⟨⟨content.length+1, fun fuel hfuel => ?_⟩,
    (escapeContent content).length+1, fun fuel hfuel => ?_⟩
  · exact unescapeContentLoop_returns content fuel hfuel
  · rw [unescapeContentLoop_returns _ fuel hfuel, unescapeContent_escape]

example : unescapeContentLoop 9 "\\\\\\[a\\]".toList = some "\\[a]".toList := by decide

end

/-! `StringUtils::TrimLeft`, `TrimRight` and `Trim`. -/

/-- The loop of `TrimLeft`: the index of the first character that is no space, `i` being that of the
first character of what is left. -/
def firstNonSpace : List Char → ℕ → ℕ
  | c :: cs, i => if isSpace c then firstNonSpace cs (i+1) else i
  | [], i => i

/-- The loop of `TrimRight`, which stops at the first character, whatever it is. -/
def lastNonSpace (str : List Char) : ℕ → ℕ
  | 0 => 0
  | i+1 => if isSpace (str.getD (i+1) '\x00') then lastNonSpace str i else i+1

def trimLeft (str : List Char) : List Char :=
  if str = [] then str
  else if firstNonSpace str 0 < str.length then str.drop (firstNonSpace str 0) else []

def trimRight (str : List Char) : List Char :=
  if str = [] then str
  else if 0 < lastNonSpace str (str.length-1) then str.take (lastNonSpace str (str.length-1)+1) else
    []

def trim (str : List Char) : List Char := trimRight (trimLeft str)

/-- The text without the spaces at its ends. -/
def withoutEnds (str : List Char) : List Char := (str.dropWhile isSpace).rdropWhile isSpace

section
variable {c : Char} {s str : List Char}

theorem firstNonSpace_eq (s : List Char) (i : ℕ) :
    firstNonSpace s i = i+(s.takeWhile isSpace).length := by
  induction s generalizing i with
  | nil => rfl
  | cons c s ih =>
    unfold firstNonSpace
    by_cases hc : isSpace c
    · rw [if_pos hc, ih, List.takeWhile_cons_of_pos hc, List.length_cons]
      omega
    · rw [if_neg hc, List.takeWhile_cons_of_neg hc]
      rfl

theorem trimLeft_eq (str : List Char) : trimLeft str = str.dropWhile isSpace := by
  have happ := List.takeWhile_append_dropWhile (p := isSpace) (l := str)
  have hdrop : str.drop (str.takeWhile isSpace).length = str.dropWhile isSpace := by
    have hleft := @List.drop_left _ (str.takeWhile isSpace) (str.dropWhile isSpace)
    rwa [happ] at hleft
  unfold trimLeft
  rw [firstNonSpace_eq, zero_add, hdrop]
  split_ifs with hnil hlt
  · rw [hnil]
    rfl
  · rfl
  · rw [← hdrop]
    exact (List.drop_eq_nil_of_le (not_lt.mp hlt)).symm

/-- The scan goes down over spaces to the first character or to one that is no space. -/
theorem lastNonSpace_eq {k i : ℕ} (hki : k ≤ i)
    (hspace : ∀ j, k < j → j ≤ i → isSpace (s.getD j '\x00'))
    (hk : k = 0 ∨ isSpace (s.getD k '\x00') = false) : lastNonSpace s i = k := by
  induction i with
  | zero => exact (Nat.le_zero.mp hki).symm
  | succ i ih =>
    unfold lastNonSpace
    rcases Nat.lt_or_eq_of_le hki with hlt | rfl
    · rw [if_pos (hspace (i+1) hlt le_rfl)]
      exact ih (by omega) fun j hkj hj => hspace j hkj (by omega)
    · rcases hk with hzero | hno
      · omega
      · rw [if_neg (by rw [hno]; exact Bool.false_ne_true)]

theorem withoutEnds_append (str : List Char) :
    str.dropWhile isSpace = withoutEnds str ++ (str.dropWhile isSpace).rtakeWhile isSpace :=
  List.rdropWhile_append_rtakeWhile.symm

/-- Where it is not all spaces, what is left begins and ends with a character that is no space. -/
theorem withoutEnds_first {cs : List Char} (h : withoutEnds str = c :: cs) : isSpace c = false := by
  have hhead := List.head?_dropWhile_not isSpace str
  rw [withoutEnds_append, h] at hhead
  exact hhead

theorem withoutEnds_last (h : withoutEnds str ≠ []) :
    isSpace ((withoutEnds str).getLast h) = false := by
  exact Bool.eq_false_iff.mpr (List.rdropWhile_last_not isSpace (str.dropWhile isSpace) h)

theorem dropWhile_nil_of_withoutEnds (h : withoutEnds str = []) : str.dropWhile isSpace = [] := by
  have hall := List.rdropWhile_eq_nil_iff.mp h
  by_contra hne
  have hhead := List.head_dropWhile_not isSpace hne
  rw [hall _ (List.head_mem hne)] at hhead
  exact Bool.false_ne_true hhead.symm

/-- A single character that is no space gets lost. -/
theorem trim_eq (str : List Char) :
    trim str = if (withoutEnds str).length = 1 then [] else withoutEnds str := by
  unfold trim
  rw [trimLeft_eq]
  by_cases hnil : withoutEnds str = []
  · rw [dropWhile_nil_of_withoutEnds hnil, hnil]
    rfl
  · have happ := withoutEnds_append str
    have hspaces : ∀ c ∈ (str.dropWhile isSpace).rtakeWhile isSpace, isSpace c := fun c hc =>
      List.mem_rtakeWhile_imp hc
    generalize (str.dropWhile isSpace).rtakeWhile isSpace = spaces at happ hspaces
    generalize hcore : withoutEnds str = core at happ hnil ⊢
    have hpos := List.length_pos_of_ne_nil hnil
    have hlast : isSpace ((core ++ spaces).getD (core.length-1) '\x00') = false := by
      have h := withoutEnds_last (hcore ▸ hnil)
      simp only [hcore] at h
      rw [List.getD_append _ _ _ _ (by omega), List.getD_eq_getElem _ _ (by omega)]
      rwa [← List.getLast_eq_getElem hnil]
    have hscan : lastNonSpace (core ++ spaces) ((core ++ spaces).length-1) = core.length-1 := by
      apply lastNonSpace_eq (by rw [List.length_append]; omega) _ (Or.inr hlast)
      intro j hj hle
      rw [List.length_append] at hle
      rw [List.getD_append_right _ _ _ _ (by omega), List.getD_eq_getElem _ _ (by omega)]
      exact hspaces _ (List.getElem_mem _)
    unfold trimRight
    rw [happ, hscan, if_neg (List.append_ne_nil_of_left_ne_nil hnil _),
      Nat.sub_add_cancel hpos, List.take_left]
    split_ifs <;> first | rfl | omega

theorem withoutEnds_idempotent (str : List Char) : withoutEnds (withoutEnds str) =
    withoutEnds str := by
  have hdrop : (withoutEnds str).dropWhile isSpace = withoutEnds str := by
    cases h : withoutEnds str with
    | nil => rfl
    | cons c cs =>
      apply List.dropWhile_cons_of_neg
      rw [withoutEnds_first h]
      exact Bool.false_ne_true
  nth_rewrite 1 [withoutEnds]
  rw [hdrop]
  exact List.rdropWhile_idempotent _ _

theorem trim_idempotent (str : List Char) : trim (trim str) = trim str := by
  rw [trim_eq str]
  split_ifs with hone
  · rfl
  · rw [trim_eq, withoutEnds_idempotent, if_neg hone]

theorem countP_withoutEnds (str : List Char) :
    str.countP (!isSpace ·) = (withoutEnds str).countP (!isSpace ·) := by
  have hnone {l : List Char} (h : ∀ c ∈ l, isSpace c) : l.countP (!isSpace ·) = 0 := by
    refine List.countP_eq_zero.mpr fun c hc => ?_
    rw [h c hc]
    exact Bool.false_ne_true
  have htake : (str.takeWhile isSpace).countP (!isSpace ·) = 0 :=
    hnone fun c hc => List.mem_takeWhile_imp hc
  have hrtake : ((str.dropWhile isSpace).rtakeWhile isSpace).countP (!isSpace ·) = 0 :=
    hnone fun c hc => List.mem_rtakeWhile_imp hc
  calc str.countP (!isSpace ·)
      = (str.takeWhile isSpace).countP (!isSpace ·)+(str.dropWhile isSpace).countP (!isSpace ·) := by
        rw [← List.countP_append, List.takeWhile_append_dropWhile]
    _ = (str.dropWhile isSpace).countP (!isSpace ·) := by rw [htake, zero_add]
    _ = (withoutEnds str).countP (!isSpace ·) := by
        rw [withoutEnds_append, List.countP_append, hrtake, add_zero]

/-- A single character is left if the text has only one that is no space. -/
theorem withoutEnds_single_iff (str : List Char) :
    (withoutEnds str).length = 1 ↔ str.countP (!isSpace ·) = 1 := by
  rw [countP_withoutEnds]
  cases h : withoutEnds str with
  | nil => exact iff_of_false nofun nofun
  | cons c cs =>
    have hc : (!isSpace c) = true := by rw [withoutEnds_first h]; rfl
    have hcount : (c :: cs).countP (!isSpace ·) = cs.countP (!isSpace ·)+1 :=
      List.countP_cons_of_pos hc
    rw [hcount, List.length_cons, Nat.add_eq_right, Nat.add_eq_right, List.length_eq_zero_iff]
    constructor
    · rintro rfl
      rfl
    · -- the last character would be a second one
      intro hzero
      by_contra hne
      have hlast := withoutEnds_last (h ▸ List.cons_ne_nil c cs)
      simp only [h, List.getLast_cons hne] at hlast
      have hspace := List.countP_eq_zero.mp hzero _ (List.getLast_mem hne)
      rw [hlast] at hspace
      exact hspace rfl

end

/-! `StringUtils::ReplaceAll`. -/

/-- The body of the loop, on `result` and `pos`. -/
def replaceBody (replaceWhat replaceWithWhat : List Char) : List Char × ℕ →
    (List Char × ℕ) ⊕ List Char
  | (result, pos) =>
    match find result replaceWhat pos with
    | none => .inr result
    | some pos =>
      .inl (replace result pos replaceWhat.length replaceWithWhat, pos+replaceWithWhat.length)

/-- `StringUtils::ReplaceAll` of at most as many rounds. -/
def replaceAll (fuel : ℕ) (source replaceWhat replaceWithWhat : List Char) : Option (List Char) :=
  loop (replaceBody replaceWhat replaceWithWhat) fuel (source, 0)

/-- The occurrences of a text that is not empty are replaced from left to right; one that overlaps an
occurrence before it is none. -/
def replaceOccurrences (replaceWhat replaceWithWhat : List Char) : List Char → List Char
  | [] => []
  | c :: cs =>
    if replaceWhat <+: c :: cs then
      replaceWithWhat ++ replaceOccurrences
        replaceWhat replaceWithWhat (cs.drop (replaceWhat.length-1))
    else c :: replaceOccurrences replaceWhat replaceWithWhat cs
termination_by s => s.length
decreasing_by
  all_goals simp only [List.length_cons, List.length_drop]; omega

section
variable {what new : List Char}

theorem replaceOccurrences_found {rest : List Char} (hwhat : what ≠ []) (pre : List Char)
    (hfind : findFirst what (pre ++ (what ++ rest)) = some pre.length) :
    replaceOccurrences what new (pre ++ (what ++ rest)) =
      pre ++ (new ++ replaceOccurrences what new rest) := by
  induction pre with
  | nil =>
    obtain ⟨c, w, rfl⟩ := List.exists_cons_of_ne_nil hwhat
    have hdrop : (w ++ rest).drop ((c :: w).length-1) = rest := List.drop_left
    rw [List.nil_append, List.cons_append, replaceOccurrences, if_pos ⟨rest, rfl⟩, hdrop]
    rfl
  | cons c pre ih =>
    rw [List.cons_append] at hfind ⊢
    by_cases hp : what <+: c :: (pre ++ (what ++ rest))
    · rw [findFirst_cons_pos hp] at hfind
      cases hfind
    · rw [findFirst_cons_neg hp] at hfind
      obtain ⟨n, hn, hsucc⟩ := Option.map_eq_some_iff.mp hfind
      rw [replaceOccurrences, if_neg hp, ih (hn.trans (congrArg some (Nat.succ.inj hsucc)))]
      rfl

theorem replaceOccurrences_none {s : List Char} (hfind : findFirst what s = none) :
    replaceOccurrences what new s = s := by
  induction s with
  | nil => rw [replaceOccurrences]
  | cons c s ih =>
    by_cases hp : what <+: c :: s
    · rw [findFirst_cons_pos hp] at hfind
      cases hfind
    · rw [findFirst_cons_neg hp] at hfind
      rw [replaceOccurrences, if_neg hp, ih (Option.map_eq_none_iff.mp hfind)]

/-- What a round writes, and what is left. -/
def replaceEdit (what new rest : List Char) : Option (List Char × List Char) :=
  (findFirst what rest).map fun n => (rest.take n ++ new, rest.drop (n+what.length))

theorem replaceEdit_cases (what new rest : List Char) :
    findFirst what rest = none ∧ replaceEdit what new rest = none ∨
      ∃ pre tail, rest = pre ++ (what ++ tail) ∧ findFirst what rest = some pre.length ∧
        replaceEdit what new rest = some (pre ++ new, tail) := by
  cases hfind : findFirst what rest with
  | none =>
    refine Or.inl ⟨rfl, ?_⟩
    unfold replaceEdit
    rw [hfind, Option.map_none]
  | some n =>
    obtain ⟨tail, hrest, hlen⟩ := findFirst_some hfind
    generalize rest.take n = pre at hrest hlen
    subst hlen hrest
    refine Or.inr ⟨pre, tail, rfl, rfl, ?_⟩
    have hdrop : (pre ++ (what ++ tail)).drop (pre.length+what.length) = tail := by
      rw [← List.drop_drop, List.drop_left, List.drop_left]
    unfold replaceEdit
    rw [hfind, Option.map_some, List.take_left, hdrop]

theorem replaceAll_returns (source : List Char) (hwhat : what ≠ []) (fuel : ℕ)
    (hfuel : source.length < fuel) :
    replaceAll fuel source what new = some (replaceOccurrences what new source) := by
  have hpos := List.length_pos_of_ne_nil hwhat
  have h := @loop_edits _ (replaceBody what new) (replaceEdit what new) (replaceOccurrences what new)
    ?_ ?_ ?_ ?_ source [] fuel hfuel
  · exact h
  · intro done rest hnone
    rcases replaceEdit_cases what new rest with ⟨hfind, _⟩ | ⟨pre, tail, _, _, hsome⟩
    · unfold replaceBody
      simp only [find_behind, hfind, Option.map_none]
    · rw [hnone] at hsome
      cases hsome
  · intro done rest out rest' hedit
    rcases replaceEdit_cases what new rest with ⟨_, hnone⟩ | ⟨pre, tail, rfl, hfind, hsome⟩
    · rw [hedit] at hnone
      cases hnone
    · rw [hedit] at hsome
      cases hsome
      unfold replaceBody
      simp only [find_behind, hfind, Option.map_some, replace_behind done pre what rest' new rfl]
      refine congrArg Sum.inl (Prod.ext ?_ ?_)
      · rw [List.append_assoc done]
      · simp only [List.length_append]
        omega
  · intro rest out rest' hedit
    rcases replaceEdit_cases what new rest with ⟨_, hnone⟩ | ⟨pre, tail, rfl, _, hsome⟩
    · rw [hedit] at hnone
      cases hnone
    · rw [hedit] at hsome
      cases hsome
      simp only [List.length_append]
      omega
  · intro rest
    rcases replaceEdit_cases what new rest with ⟨hfind, hnone⟩ | ⟨pre, tail, rfl, hfind, hsome⟩
    · rw [hnone]
      exact replaceOccurrences_none hfind
    · rw [hsome, replaceOccurrences_found hwhat pre hfind]
      exact (List.append_assoc _ _ _).symm

/-- The empty text is found again behind each text that has been put in. -/
theorem replaceAll_diverges (source new : List Char) (fuel : ℕ) :
    replaceAll fuel source [] new = none := by
  apply @loop_diverges _ _ _ fun s : List Char × ℕ => s.2 ≤ s.1.length
  · rintro ⟨result, pos⟩ hpos
    have hfind : find result [] pos = some pos := by
      unfold find
      rw [if_pos hpos, findFirst_empty]
      rfl
    refine ⟨(replace result pos 0 new, pos+new.length), ?_, ?_⟩
    · simp only [replaceBody, hfind]
      rfl
    have hle : pos ≤ result.length := hpos
    simp only [replace, List.length_append, List.length_take, List.length_drop]
    omega
  · exact Nat.zero_le _

/-- Trimming removes the spaces at the ends, also when it is done twice, and all occurrences are
replaced, if the text has not just one character that is no space and what is replaced is not empty.
-/
theorem trim_replaceAll_exact_iff (str source replaceWhat replaceWithWhat : List Char) :
    (trim str = withoutEnds str ∧ trim (trim str) = trim str ∧
      ∃ n, ∀ fuel ≥ n, replaceAll fuel source replaceWhat replaceWithWhat =
        some (replaceOccurrences replaceWhat replaceWithWhat source)) ↔
      str.countP (!isSpace ·) ≠ 1 ∧ replaceWhat ≠ [] := by
  have htrim : trim str = withoutEnds str ↔ str.countP (!isSpace ·) ≠ 1 := by
    rw [trim_eq, ne_eq, ← withoutEnds_single_iff]
    constructor
    · intro h hone
      rw [if_pos hone] at h
      rw [← h] at hone
      exact Nat.zero_ne_one hone
    · exact fun hone => if_neg hone
  have hreplace : (∃ n, ∀ fuel ≥ n, replaceAll fuel source replaceWhat replaceWithWhat =
      some (replaceOccurrences replaceWhat replaceWithWhat source)) ↔ replaceWhat ≠ [] := by
    constructor
    · rintro ⟨n, hn⟩ rfl
      have h := hn n le_rfl
      rw [replaceAll_diverges] at h
      cases h
    · exact fun hwhat => ⟨source.length+1, fun fuel hfuel => replaceAll_returns source hwhat fuel
        hfuel⟩
  rw [htrim, hreplace, and_iff_right (trim_idempotent str)]

/-- A single character is trimmed away, and the empty text is replaced without end. -/
theorem trim_single_character :
    trim " x ".toList = [] ∧ withoutEnds " x ".toList = ['x'] ∧
      ∀ fuel, replaceAll fuel "ab".toList [] "c".toList = none :=
  ⟨by decide, by decide, replaceAll_diverges _ _⟩

end

end ScMachine.Utils
