import Mathlib.Data.List.Basic
import SpecTree.Proofs.Json.Edges

/-!
# The text of an object

`exists_object_of_ofMarks`: the text of an object begins with its opening brace and ends with its closing one,
blanks aside.

1. Where the outermost value is an array, it is one in the end (`BuildsArray.foldlM`), so that an object begins
   with a brace; the mark that finishes it is a brace (`closeObject_of_result?`).
2. No other mark is made of a brace, and no scalar is an object (`readMark_cases`).
-/

namespace SpecTree.Json

/-! ## The first and the last mark of an object -/

namespace Machine

variable {m next : Machine} {stack below : List Frame} {mark : Mark} {j : Json}

theorem step?_of_step (h : m.step mark = .ok next) : m.step? mark = some next := by
  unfold step at h
  split at h
  · cases h
  · next he =>
    cases h
    exact he
  · cases h

theorem step_broken (m : Machine) : m.step .broken = .error .malformed := by
  have hnone : m.step? .broken = none := by
    obtain ⟨stack, expected⟩ := m
    cases expected <;> rfl
  unfold step
  rw [hnone]

theorem exists_of_foldlM_cons {ms : List Mark} (h : (mark :: ms).foldlM step m = .ok next) :
    ∃ mid, m.step? mark = some mid ∧ ms.foldlM step mid = .ok next := by
  rw [List.foldlM_cons] at h
  cases hstep : m.step mark with
  | error =>
    rw [hstep] at h
    cases h
  | ok mid =>
    rw [hstep] at h
    exact ⟨mid, step?_of_step hstep, h⟩

theorem exists_of_foldlM_concat {ms : List Mark} (h : (ms ++ [mark]).foldlM step m = .ok next) :
    ∃ mid : Machine, mid.step? mark = some next := by
  induction ms generalizing m with
  | nil =>
    obtain ⟨mid, hstep, hrest⟩ := exists_of_foldlM_cons h
    cases hrest
    exact ⟨m, hstep⟩
  | cons first ms ih =>
    obtain ⟨mid, -, hrest⟩ := exists_of_foldlM_cons h
    exact ih hrest

/-- The outermost value is an array. -/
def BuildsArray (m : Machine) : Prop :=
  (∃ items, m.stack.getLast? = some (.array items) ∧ m.result? = none) ∨
    ∃ items, m = ⟨[], .nothing (.arr items)⟩

theorem getLast?_of_isSome {α : Type} {a b : α} {l : List α} (h : (a :: l).getLast? = some b) (c : α) :
    (l = [] ∧ a = b) ∨ (c :: l).getLast? = some b := by
  cases l with
  | nil => exact .inl ⟨rfl, by simpa using h⟩
  | cons x l => exact .inr (by simpa [List.getLast?_cons_cons] using h)

theorem buildsArray_deliver {items : List Json} (h : deliver stack j = some next)
    (hs : stack.getLast? = some (.array items)) : next.BuildsArray := by
  unfold deliver at h
  split at h
  · cases hs
  · next its below =>
    cases h
    rcases getLast?_of_isSome hs (.array (j :: its)) with ⟨rfl, -⟩ | hlast
    · exact .inl ⟨_, rfl, rfl⟩
    · exact .inl ⟨_, hlast, rfl⟩
  · next members name below =>
    cases h
    rcases getLast?_of_isSome hs (.object (putEntry name j members)) with ⟨-, he⟩ | hlast
    · cases he
    · exact .inl ⟨_, hlast, rfl⟩
  · cases h

theorem buildsArray_takeValue {items : List Json} (h : takeValue stack mark = some next)
    (hs : stack.getLast? = some (.array items)) : next.BuildsArray := by
  have hpush (top : Frame) : (top :: stack).getLast? = some (.array items) := by
    cases stack with
    | nil => cases hs
    | cons => rw [List.getLast?_cons_cons]; exact hs
  unfold takeValue at h
  split at h
  · exact buildsArray_deliver h hs
  · exact buildsArray_deliver h hs
  · cases h
    exact .inl ⟨_, hpush _, rfl⟩
  · cases h
    exact .inl ⟨_, hpush _, rfl⟩
  · cases h

theorem buildsArray_takeName {items : List Json} (h : takeName stack mark = some next)
    (hs : stack.getLast? = some (.array items)) : next.BuildsArray := by
  unfold takeName at h
  split at h
  · next name =>
    split at h
    · next members below =>
      cases h
      rcases getLast?_of_isSome hs (.member members name) with ⟨-, he⟩ | hlast
      · cases he
      · exact .inl ⟨_, hlast, rfl⟩
    · cases h
  · cases h

theorem buildsArray_close {top : Frame} {items : List Json}
    (h : deliver below j = some next) (hs : (top :: below).getLast? = some (.array items))
    (hj : below = [] → ∃ items, j = .arr items) : next.BuildsArray := by
  cases below with
  | nil =>
    obtain ⟨items, rfl⟩ := hj rfl
    cases h
    exact .inr ⟨items, rfl⟩
  | cons frame below =>
    rw [List.getLast?_cons_cons] at hs
    exact buildsArray_deliver h hs

theorem buildsArray_takeClose {items : List Json} (h : takeClose stack mark = some next)
    (hs : stack.getLast? = some (.array items)) : next.BuildsArray := by
  unfold takeClose at h
  split at h
  · split at h
    · next its below => exact buildsArray_close h hs fun _ => ⟨_, rfl⟩
    · cases h
  · split at h
    · next members below =>
      refine buildsArray_close h hs ?_
      rintro rfl
      cases hs
    · cases h
  · cases h

theorem takeComma_stack (h : takeComma stack mark = some next) :
    next.stack = stack ∧ next.result? = none := by
  unfold takeComma at h
  split at h
  · split at h <;> cases h <;> exact ⟨rfl, rfl⟩
  · cases h

/-- A mark that is taken is a value, a name, the end of what is open, or a sign between two of them. -/
theorem step?_cases (h : m.step? mark = some next) :
    takeValue m.stack mark = some next ∨ takeName m.stack mark = some next ∨
      takeClose m.stack mark = some next ∨ next.stack = m.stack ∧ next.result? = none := by
  unfold Machine.step? at h
  split at h
  · exact .inl h
  · rcases Option.or_eq_some_iff.1 h with h | ⟨-, h⟩
    · exact .inr (.inr (.inl h))
    · exact .inl h
  · exact .inr (.inl h)
  · rcases Option.or_eq_some_iff.1 h with h | ⟨-, h⟩
    · exact .inr (.inr (.inl h))
    · exact .inr (.inl h)
  · split at h
    · cases h
      exact .inr (.inr (.inr ⟨rfl, rfl⟩))
    · cases h
  · rcases Option.or_eq_some_iff.1 h with h | ⟨-, h⟩
    · exact .inr (.inr (.inr (takeComma_stack h)))
    · exact .inr (.inr (.inl h))
  · cases h

theorem BuildsArray.step? (hm : m.BuildsArray) (h : m.step? mark = some next) : next.BuildsArray := by
  obtain ⟨items, hs, -⟩ | ⟨items, rfl⟩ := hm
  · rcases step?_cases h with h | h | h | ⟨hstack, hnone⟩
    · exact buildsArray_takeValue h hs
    · exact buildsArray_takeName h hs
    · exact buildsArray_takeClose h hs
    · exact .inl ⟨items, hstack ▸ hs, hnone⟩
  · cases h

theorem BuildsArray.foldlM {ms : List Mark} (hm : m.BuildsArray)
    (h : ms.foldlM step m = .ok next) : next.BuildsArray := by
  induction ms generalizing m with
  | nil =>
    cases h
    exact hm
  | cons mark ms ih =>
    obtain ⟨mid, hstep, hrest⟩ := exists_of_foldlM_cons h
    exact ih (hm.step? hstep) hrest

theorem BuildsArray.result?_ne (hm : m.BuildsArray) (members : List (String × Json)) :
    m.result? ≠ some (.obj members) := by
  obtain ⟨items, -, hnone⟩ | ⟨items, rfl⟩ := hm
  · simp [hnone]
  · intro h
    cases h

/-- A delivery that finishes an object delivers that object. -/
theorem eq_of_deliver {members : List (String × Json)} (h : deliver stack j = some next)
    (hr : next.result? = some (.obj members)) : j = .obj members := by
  unfold deliver at h
  split at h <;> cases h <;> cases hr
  rfl

/-- The mark that finishes an object, where no mark is one. -/
theorem closeObject_of_result? {members : List (String × Json)} (h : m.step? mark = some next)
    (hr : next.result? = some (.obj members)) (hm : ∀ ms, mark ≠ .scalar (.obj ms)) :
    mark = .closeObject := by
  rcases step?_cases h with h | h | h | ⟨-, hnone⟩
  · unfold takeValue at h
    split at h
    · exact absurd (congrArg Mark.scalar (eq_of_deliver h hr)) (hm members)
    · cases eq_of_deliver h hr
    · cases h
      cases hr
    · cases h
      cases hr
    · cases h
  · unfold takeName at h
    split at h
    · split at h
      · cases h
        cases hr
      · cases h
    · cases h
  · unfold takeClose at h
    split at h
    · split at h
      · cases eq_of_deliver h hr
      · cases h
    · rfl
    · cases h
  · rw [hnone] at hr
    cases hr

/-- Nothing comes after a finished value. -/
theorem eq_nil_of_foldlM {ms : List Mark} (h : ms.foldlM step ⟨[], .nothing j⟩ = .ok next) :
    ms = [] ∧ next = ⟨[], .nothing j⟩ := by
  cases ms with
  | nil =>
    cases h
    exact ⟨rfl, rfl⟩
  | cons mark ms =>
    obtain ⟨mid, hstep, -⟩ := exists_of_foldlM_cons h
    cases hstep

theorem openObject_of_result? {ms : List Mark} {members : List (String × Json)}
    (h : (mark :: ms).foldlM step start = .ok next) (hr : next.result? = some (.obj members))
    (hm : ∀ ms, mark ≠ .scalar (.obj ms)) : mark = .openObject := by
  obtain ⟨mid, hfirst, hrest⟩ := exists_of_foldlM_cons h
  change takeValue [] mark = some mid at hfirst
  unfold takeValue at hfirst
  split at hfirst
  · next j =>
    cases hfirst
    obtain ⟨-, rfl⟩ := eq_nil_of_foldlM hrest
    cases hr
    exact absurd rfl (hm members)
  · cases hfirst
    obtain ⟨-, rfl⟩ := eq_nil_of_foldlM hrest
    cases hr
  · cases hfirst
    have harray : BuildsArray ⟨[.array []], .valueOrClose⟩ := .inl ⟨[], rfl, rfl⟩
    exact absurd hr ((harray.foldlM hrest).result?_ne members)
  · rfl
  · cases hfirst

end Machine

section

variable {ms : List Mark} {m : Machine} {problem : Problem}

theorem ofMarks_of_error (h : ms.foldlM Machine.step Machine.start = .error problem) :
    ofMarks ms = .error problem := by
  unfold ofMarks
  rw [h]
  rfl

theorem ofMarks_of_ok (h : ms.foldlM Machine.step Machine.start = .ok m) :
    ofMarks ms = match m.result? with
      | some j => .ok j
      | none => .error .malformed := by
  unfold ofMarks
  rw [h]
  cases hr : m.result? <;> simp [bind, Except.bind, hr] <;> rfl

theorem exists_of_ofMarks {j : Json} (h : ofMarks ms = .ok j) :
    ∃ m, ms.foldlM Machine.step Machine.start = .ok m ∧ m.result? = some j := by
  cases hrun : ms.foldlM Machine.step Machine.start with
  | error =>
    rw [ofMarks_of_error hrun] at h
    cases h
  | ok m =>
    rw [ofMarks_of_ok hrun] at h
    split at h
    · next hr =>
      cases h
      exact ⟨m, rfl, hr⟩
    · cases h

/-- A row of marks that breaks off is no value, and the first whole number that is too long is found before. -/
theorem ofMarks_broken (ms : List Mark) : ∃ problem, ofMarks (ms ++ [.broken]) = .error problem ∧
    ∀ digits, problem = .longNumber digits ↔ ofMarks ms = .error (.longNumber digits) := by
  have happend : (ms ++ [Mark.broken]).foldlM Machine.step Machine.start =
      ms.foldlM Machine.step Machine.start >>= [Mark.broken].foldlM Machine.step := List.foldlM_append
  cases hrun : ms.foldlM Machine.step Machine.start with
  | error problem =>
    refine ⟨problem, ofMarks_of_error (by rw [happend, hrun]; rfl), fun digits => ?_⟩
    rw [ofMarks_of_error hrun, Except.error.injEq]
  | ok m =>
    have hbroken : [Mark.broken].foldlM Machine.step m = .error .malformed := by
      rw [List.foldlM_cons, Machine.step_broken]
      rfl
    refine ⟨.malformed, ofMarks_of_error (by rw [happend, hrun]; exact hbroken), fun digits => ?_⟩
    rw [ofMarks_of_ok hrun]
    cases m.result? <;> simp

/-- A text that breaks off is no value, and it is refused for a number that is too long as what stands before is. -/
theorem ofMarks_append_broken {behind : List Char} (h : EndsMarks behind) (hb : marks behind = [.broken])
    (cs : List Char) : ∃ problem, ofMarks (marks (cs ++ behind)) = .error problem ∧
      ∀ digits, problem = .longNumber digits ↔ ofMarks (marks cs) = .error (.longNumber digits) := by
  rcases marks_append h cs with ⟨front, hfront, hsame⟩ | hmore
  · obtain ⟨problem, hproblem, -⟩ := ofMarks_broken front
    refine ⟨problem, by rw [hsame, hfront, hproblem], fun digits => ?_⟩
    rw [hfront, hproblem, Except.error.injEq]
  · rw [hmore, hb]
    exact ofMarks_broken (marks cs)

end

/-- The marks of an object stand between its braces. -/
theorem exists_inner_of_ofMarks {ms : List Mark} {members : List (String × Json)}
    (h : ofMarks ms = .ok (.obj members)) (hm : ∀ members, .scalar (.obj members) ∉ ms) :
    ∃ inner, ms = .openObject :: inner ++ [.closeObject] := by
  obtain ⟨m, hrun, hr⟩ := exists_of_ofMarks h
  rcases List.eq_nil_or_concat' ms with rfl | ⟨front, last, rfl⟩
  · cases hrun
    cases hr
  obtain ⟨mid, hstep⟩ := Machine.exists_of_foldlM_concat hrun
  obtain rfl : last = .closeObject :=
    Machine.closeObject_of_result? hstep hr fun ms he => hm ms (by simp [he])
  cases front with
  | nil =>
    have hopen := Machine.openObject_of_result? hrun hr (by simp)
    cases hopen
  | cons first inner =>
    have hfirst : first = .openObject :=
      Machine.openObject_of_result? hrun hr fun ms he => hm ms (by simp [he])
    exact ⟨inner, by rw [hfirst]⟩

/-! ## The text of an object -/

section

variable {cs rest after : List Char} {c : Char} {m : Mark}

/-- The mark is no brace, and no scalar that is an object. -/
def Mark.IsInner (m : Mark) : Prop :=
  m ≠ .openObject ∧ m ≠ .closeObject ∧ ∀ members, m ≠ .scalar (.obj members)

theorem isInner_of_readWord {j : Json} (h : readWord cs = some (j, rest)) : Mark.IsInner (.scalar j) := by
  obtain ⟨w, hw, heq⟩ := Option.map_eq_some_iff.1 h
  cases heq
  have hm := List.mem_of_find?_eq_some hw
  simp only [words, List.mem_cons, List.not_mem_nil, or_false] at hm
  rcases hm with rfl | rfl | rfl | rfl | rfl | rfl <;> simp [Mark.IsInner]

theorem isInner_of_readNumber {negative : Bool} (h : readNumber negative cs = some (m, rest)) :
    m.IsInner := by
  unfold readNumber at h
  dsimp only at h
  split at h
  · cases h
  · split at h
    · cases h
      unfold wholeMark
      split <;> simp [Mark.IsInner]
    · cases h
      simp [Mark.IsInner]

/-- Only braces open and close an object. -/
theorem readMark_cases (h : readMark c cs = some (m, rest)) :
    (m = .openObject ∧ c = '\x7b' ∧ rest = cs) ∨ (m = .closeObject ∧ c = '\x7d' ∧ rest = cs) ∨ m.IsInner := by
  unfold readMark at h
  split at h
  case h_3 =>
    cases h
    exact .inl ⟨rfl, rfl, rfl⟩
  case h_4 =>
    cases h
    exact .inr (.inl ⟨rfl, rfl, rfl⟩)
  case h_7 =>
    obtain ⟨⟨text, r⟩, -, heq⟩ := Option.map_eq_some_iff.1 h
    cases heq
    simp [Mark.IsInner]
  case h_8 =>
    split at h
    · next hw =>
      cases h
      exact .inr (.inr (isInner_of_readWord hw))
    · split at h
      · exact .inr (.inr (isInner_of_readNumber h))
      · exact .inr (.inr (isInner_of_readNumber h))
  all_goals
    cases h
    simp [Mark.IsInner]

/-- No scalar is an object. -/
theorem obj_not_mem_marks (cs : List Char) (members : List (String × Json)) :
    .scalar (.obj members) ∉ marks cs := by
  fun_induction marks cs with
  | case1 => exact List.not_mem_nil
  | case2 _ _ _ ih => exact ih
  | case3 => simp
  | case4 c rest hs m after hm ih =>
    refine List.not_mem_cons_of_ne_of_not_mem (fun he => ?_) ih
    subst he
    rcases readMark_cases hm with ⟨he, -⟩ | ⟨he, -⟩ | hinner
    · cases he
    · cases he
    · exact hinner.2.2 members rfl

theorem exists_of_marks_openObject {ms : List Mark} (h : marks cs = .openObject :: ms) :
    ∃ before after, cs = before ++ '\x7b' :: after ∧ (∀ c ∈ before, isSpace c = true) ∧ marks after = ms := by
  fun_induction marks cs with
  | case1 => cases h
  | case2 c rest hs ih =>
    obtain ⟨before, after, rfl, hspaces, hms⟩ := ih h
    exact ⟨c :: before, after, rfl, List.forall_mem_cons.2 ⟨hs, hspaces⟩, hms⟩
  | case3 => cases h
  | case4 c rest hs m after hm ih =>
    cases h
    obtain ⟨-, rfl, rfl⟩ | ⟨hclose, -⟩ | hinner := readMark_cases hm
    · exact ⟨[], after, rfl, List.forall_mem_nil _, rfl⟩
    · cases hclose
    · exact absurd rfl hinner.1

theorem exists_of_marks_closeObject {ms : List Mark} (h : marks cs = ms ++ [.closeObject]) :
    ∃ before after, cs = before ++ '\x7d' :: after ∧ ∀ c ∈ after, isSpace c = true := by
  fun_induction marks cs generalizing ms with
  | case1 => simp at h
  | case2 c rest hs ih =>
    obtain ⟨before, after, rfl, hspaces⟩ := ih h
    exact ⟨c :: before, after, rfl, hspaces⟩
  | case3 =>
    cases ms <;> simp at h
  | case4 c rest hs m after hm ih =>
    cases ms with
    | nil =>
      simp only [List.nil_append, List.cons.injEq] at h
      obtain ⟨rfl, hnil⟩ := h
      obtain ⟨hopen, -⟩ | ⟨-, rfl, rfl⟩ | hinner := readMark_cases hm
      · cases hopen
      · exact ⟨[], after, rfl, spaces_of_marks_eq_nil hnil⟩
      · exact absurd rfl hinner.2.1
    | cons first ms =>
      obtain ⟨before, behind, rfl, hspaces⟩ := ih (List.cons.inj h).2
      obtain ⟨front, hfront⟩ := readMark_suffix hm
      exact ⟨front ++ before, behind, by rw [← hfront, List.append_assoc], hspaces⟩

/-- **The text of an object stands between its braces**, with nothing but blanks around it. -/
theorem exists_object_of_ofMarks {members : List (String × Json)} (h : ofMarks (marks cs) = .ok (.obj members)) :
    ∃ before inner after, cs = before ++ ('\x7b' :: inner ++ ['\x7d']) ++ after ∧
      (∀ c ∈ before, isSpace c = true) ∧ (∀ c ∈ after, isSpace c = true) ∧
      ofMarks (marks ('\x7b' :: inner ++ ['\x7d'])) = .ok (.obj members) := by
  obtain ⟨ms, hms⟩ := exists_inner_of_ofMarks h (obj_not_mem_marks cs)
  obtain ⟨before, rest, rfl, hbefore, hrest⟩ := exists_of_marks_openObject hms
  obtain ⟨inner, after, rfl, hafter⟩ := exists_of_marks_closeObject hrest
  have hsplit : before ++ '\x7b' :: (inner ++ '\x7d' :: after) =
      before ++ ('\x7b' :: inner ++ ['\x7d']) ++ after := by simp
  refine ⟨before, inner, after, hsplit, hbefore, hafter, ?_⟩
  rw [hsplit, marks_append_spaces hafter, marks_spaces hbefore] at h
  exact h

end

end SpecTree.Json
