import Mathlib.Data.List.Forall2
import SpecTree.Json.Printer
import SpecTree.Proofs.Json.Edges
import SpecTree.Proofs.Json.Escape
import SpecTree.Text.Blank

/-!
# Values without numbers are read back

`readStored?_pretty`: the text of a value without numbers is read as that value, if no object in it
has a name twice and arrays and objects stand in each other no deeper than the reader allows.

1. `hasMarks_pretty` and `hasMarks_compact`: the marks of a text are those of its value, `marksOf`.
2. `foldlM_marksOf`: the automaton makes the value of them again and delivers it to what is open.
3. `deepest_marksOf` and `isClean_pretty`: the text passes what stored texts are checked for.
-/

namespace SpecTree

namespace Json

/-! ## Values -/

mutual

/-- Without numbers, and without an object that has a name twice. -/
def IsPlain : Json → Prop
  | null => True
  | bool _ => True
  | int _ => False
  | float _ => False
  | str _ => True
  | arr items => ArePlain items
  | obj members => (members.map Prod.fst).Nodup ∧ HavePlain members

def ArePlain : List Json → Prop
  | [] => True
  | j :: rest => IsPlain j ∧ ArePlain rest

def HavePlain : List (String × Json) → Prop
  | [] => True
  | (_, j) :: rest => IsPlain j ∧ HavePlain rest

end

theorem arePlain_iff {items : List Json} : ArePlain items ↔ ∀ j ∈ items, IsPlain j := by
  induction items with
  | nil => simp [ArePlain]
  | cons j rest ih => simp [ArePlain, ih]

theorem havePlain_iff {members : List (String × Json)} :
    HavePlain members ↔ ∀ m ∈ members, IsPlain m.2 := by
  induction members with
  | nil => simp [HavePlain]
  | cons m rest ih => simp [HavePlain, ih]

mutual

/-- How deep arrays and objects stand in each other. -/
def height : Json → Nat
  | arr items => heightItems items + 1
  | obj members => heightMembers members + 1
  | _ => 0

def heightItems : List Json → Nat
  | [] => 0
  | j :: rest => max (height j) (heightItems rest)

def heightMembers : List (String × Json) → Nat
  | [] => 0
  | (_, j) :: rest => max (height j) (heightMembers rest)

end

/-! ## Marks of a text -/

def commas : List (List Mark) → List Mark
  | [] => []
  | [p] => p
  | p :: q :: ps => p ++ .comma :: commas (q :: ps)

mutual

/-- The marks of a value's text. -/
def marksOf : Json → List Mark
  | null => [.scalar .null]
  | bool b => [.scalar (.bool b)]
  | int n => [.scalar (.int n)]
  | float x => [.scalar (.float x)]
  | str s => [.string s]
  | arr items => .openArray :: commas (marksOfItems items) ++ [.closeArray]
  | obj members => .openObject :: commas (marksOfMembers members) ++ [.closeObject]

def marksOfItems : List Json → List (List Mark)
  | [] => []
  | j :: rest => marksOf j :: marksOfItems rest

def marksOfMembers : List (String × Json) → List (List Mark)
  | [] => []
  | (name, j) :: rest => (.string name :: .colon :: marksOf j) :: marksOfMembers rest

end

/-- Splitting into marks passes from a text to what follows it. -/
def HasMarks (text : List Char) (ms : List Mark) : Prop :=
  ∀ rest, marks (text ++ rest) = ms ++ marks rest

theorem HasMarks.append {a b : List Char} {ms ns : List Mark} (ha : HasMarks a ms)
    (hb : HasMarks b ns) : HasMarks (a ++ b) (ms ++ ns) := by
  intro rest
  rw [List.append_assoc, ha, hb, List.append_assoc]

theorem hasMarks_nil : HasMarks [] [] := fun _ => rfl

theorem hasMarks_space {c : Char} (h : isSpace c = true) : HasMarks [c] [] := marks_space h

theorem hasMarks_spaces {cs : List Char} (h : ∀ c ∈ cs, isSpace c = true) : HasMarks cs [] := marks_spaces h

theorem hasMarks_newline (depth : Nat) : HasMarks (newline depth) [] := by
  refine hasMarks_spaces fun c hc => ?_
  rcases List.mem_cons.1 hc with rfl | hc
  · rfl
  · rw [(List.mem_replicate.1 hc).2]
    rfl

theorem hasMarks_of_readMark {c : Char} {cs : List Char} {m : Mark} (hs : isSpace c = false)
    (h : ∀ rest, readMark c (cs ++ rest) = some (m, rest)) : HasMarks (c :: cs) [m] := by
  intro rest
  rw [List.cons_append]
  exact marks_of_readMark (by simp [hs]) (h rest)

theorem hasMarks_quote (ascii : Bool) (s : String) : HasMarks (quote ascii s) [.string s] := by
  rw [quote, List.cons_append]
  refine hasMarks_of_readMark rfl fun rest => ?_
  rw [List.append_assoc]
  simp only [readMark, List.singleton_append, unquote?_flatMap, Option.map_some, String.ofList_toList]

theorem hasMarks_word (b : Bool) : HasMarks (wordText b) [.scalar (.bool b)] := by
  cases b <;> exact hasMarks_of_readMark rfl fun rest => rfl

theorem hasMarks_null : HasMarks ['n', 'u', 'l', 'l'] [.scalar .null] :=
  hasMarks_of_readMark rfl fun _ => rfl

theorem hasMarks_comma : HasMarks [','] [.comma] := hasMarks_of_readMark rfl fun _ => rfl

theorem hasMarks_colon : HasMarks [':', ' '] [.colon] :=
  (hasMarks_of_readMark rfl fun _ => rfl : HasMarks [':'] [.colon]).append (hasMarks_space rfl)

theorem hasMarks_intersperse {separator : List Char} (hs : HasMarks separator [.comma])
    {texts : List (List Char)} {ms : List (List Mark)} (h : List.Forall₂ HasMarks texts ms) :
    HasMarks (intersperse separator texts) (commas ms) := by
  induction h with
  | nil => exact hasMarks_nil
  | @cons a m texts ms ha htail ih =>
    cases htail with
    | nil => exact ha
    | @cons b n texts ms hb htail =>
      rw [intersperse, commas]
      simpa only [List.append_assoc, List.singleton_append] using (ha.append hs).append ih

theorem hasMarks_lines (depth : Nat) {left right : Char} {l r : Mark} {texts : List (List Char)}
    {ms : List (List Mark)} (hl : HasMarks [left] [l]) (hr : HasMarks [right] [r])
    (h : List.Forall₂ HasMarks texts ms) :
    HasMarks (lines depth left right texts) (l :: commas ms ++ [r]) := by
  cases h with
  | nil => exact hl.append hr
  | cons ha htail =>
    have hs := hasMarks_comma.append (hasMarks_newline (depth + 1))
    have hb := (hl.append (hasMarks_newline (depth + 1))).append
      (hasMarks_intersperse hs (.cons ha htail))
    have := (hb.append (hasMarks_newline depth)).append hr
    rw [lines, if_neg (by simp)]
    simpa only [List.append_nil, List.nil_append, List.append_assoc, List.singleton_append,
      List.cons_append] using this

mutual

theorem hasMarks_pretty (depth : Nat) {j : Json} (h : IsPlain j) :
    HasMarks (prettyChars depth j) (marksOf j) :=
  match j, h with
  | null, _ => hasMarks_null
  | bool b, _ => hasMarks_word b
  | str s, _ => hasMarks_quote false s
  | arr items, h => by
    rw [prettyChars, marksOf]
    exact hasMarks_lines depth (hasMarks_of_readMark rfl fun _ => rfl)
      (hasMarks_of_readMark rfl fun _ => rfl) (hasMarks_items (depth + 1) h)
  | obj members, h => by
    rw [prettyChars, marksOf]
    exact hasMarks_lines depth (hasMarks_of_readMark rfl fun _ => rfl)
      (hasMarks_of_readMark rfl fun _ => rfl) (hasMarks_members (depth + 1) h.2)

theorem hasMarks_items (depth : Nat) {items : List Json} (h : ArePlain items) :
    List.Forall₂ HasMarks (prettyItems depth items) (marksOfItems items) :=
  match items, h with
  | [], _ => .nil
  | j :: rest, h => by
    rw [prettyItems, marksOfItems]
    exact .cons (hasMarks_pretty depth h.1) (hasMarks_items depth h.2)

theorem hasMarks_members (depth : Nat) {members : List (String × Json)} (h : HavePlain members) :
    List.Forall₂ HasMarks (prettyMembers depth members) (marksOfMembers members) :=
  match members, h with
  | [], _ => .nil
  | (name, j) :: rest, h => by
    rw [prettyMembers, marksOfMembers]
    refine .cons ?_ (hasMarks_members depth h.2)
    exact ((hasMarks_quote false name).append hasMarks_colon).append (hasMarks_pretty depth h.1)

end

theorem hasMarks_row {left right : Char} {l r : Mark} {texts : List (List Char)}
    {ms : List (List Mark)} (hl : HasMarks [left] [l]) (hr : HasMarks [right] [r])
    (h : List.Forall₂ HasMarks texts ms) :
    HasMarks (row left right texts) (l :: commas ms ++ [r]) :=
  (hl.append (hasMarks_intersperse (hasMarks_comma.append (hasMarks_space rfl)) h)).append hr

mutual

theorem hasMarks_compact {j : Json} (h : IsPlain j) : HasMarks (compactChars j) (marksOf j) :=
  match j, h with
  | null, _ => hasMarks_null
  | bool b, _ => hasMarks_word b
  | str s, _ => hasMarks_quote true s
  | arr items, h => by
    rw [compactChars, marksOf]
    exact hasMarks_row (hasMarks_of_readMark rfl fun _ => rfl)
      (hasMarks_of_readMark rfl fun _ => rfl) (hasMarks_compactItems h)
  | obj members, h => by
    rw [compactChars, marksOf]
    exact hasMarks_row (hasMarks_of_readMark rfl fun _ => rfl)
      (hasMarks_of_readMark rfl fun _ => rfl) (hasMarks_compactMembers h.2)

theorem hasMarks_compactItems {items : List Json} (h : ArePlain items) :
    List.Forall₂ HasMarks (compactItems items) (marksOfItems items) :=
  match items, h with
  | [], _ => .nil
  | j :: rest, h => by
    rw [compactItems, marksOfItems]
    exact .cons (hasMarks_compact h.1) (hasMarks_compactItems h.2)

theorem hasMarks_compactMembers {members : List (String × Json)} (h : HavePlain members) :
    List.Forall₂ HasMarks (compactMembers members) (marksOfMembers members) :=
  match members, h with
  | [], _ => .nil
  | (name, j) :: rest, h => by
    rw [compactMembers, marksOfMembers]
    refine .cons ?_ (hasMarks_compactMembers h.2)
    exact ((hasMarks_quote true name).append hasMarks_colon).append (hasMarks_compact h.1)

end

/-! ## The automaton -/

namespace Machine

variable {m next : Machine} {stack : List Frame} {mark : Mark} {j : Json}

theorem step_of_step? (h : m.step? mark = some next) : m.step mark = .ok next := by
  unfold step
  split
  · obtain ⟨stack, expected⟩ := m
    cases expected <;>
      simp [step?, takeValue, takeName, takeClose, takeComma] at h
  · next he => rw [he] at h; rw [Option.some.inj h]
  · next he => rw [he] at h; cases h

theorem foldlM_cons_of_step? (h : m.step? mark = some next) (rest : List Mark) :
    (mark :: rest).foldlM step m = rest.foldlM step next := by
  rw [List.foldlM_cons, step_of_step? h]
  rfl

theorem deliver_nil (j : Json) : deliver [] j = some ⟨[], .nothing j⟩ := rfl

/-- Where a value may come, a mark that closes nothing is taken as one. -/
theorem step?_value {expected : Expectation} (mark : Mark) (he : expected = .value ∨ expected = .valueOrClose)
    (hc : takeClose stack mark = none) (h : takeValue stack mark = some next) :
    (⟨stack, expected⟩ : Machine).step? mark = some next := by
  rcases he with rfl | rfl
  · exact h
  · show (takeClose stack mark).or (takeValue stack mark) = some next
    rw [hc, Option.none_or, h]

/-- The end of what is open is taken wherever it may come. -/
theorem step?_close {expected : Expectation} (stack : List Frame) (mark : Mark)
    (he : expected = .valueOrClose ∨ expected = .nameOrClose ∨ expected = .commaOrClose)
    (hc : takeComma stack mark = none) (h : takeClose stack mark = some next) :
    (⟨stack, expected⟩ : Machine).step? mark = some next := by
  rcases he with rfl | rfl | rfl
  · show (takeClose stack mark).or (takeValue stack mark) = some next
    rw [h, Option.some_or]
  · show (takeClose stack mark).or (takeName stack mark) = some next
    rw [h, Option.some_or]
  · show (takeComma stack mark).or (takeClose stack mark) = some next
    rw [hc, Option.none_or, h]

mutual

/-- **The marks of a value make it again**, and deliver it to what is open. -/
theorem foldlM_marksOf {j : Json} (h : IsPlain j) {stack : List Frame} {expected : Expectation}
    (he : expected = .value ∨ expected = .valueOrClose) {next : Machine}
    (hd : deliver stack j = some next) (rest : List Mark) :
    (marksOf j ++ rest).foldlM step ⟨stack, expected⟩ = rest.foldlM step next :=
  match j, h, hd with
  | null, _, hd => foldlM_cons_of_step? (step?_value (.scalar null) he rfl hd) rest
  | bool b, _, hd => foldlM_cons_of_step? (step?_value (.scalar (bool b)) he rfl hd) rest
  | str s, _, hd => foldlM_cons_of_step? (step?_value (.string s) he rfl hd) rest
  | arr items, h, hd => by
    rw [marksOf, List.cons_append, List.cons_append, List.append_assoc,
      foldlM_cons_of_step? (step?_value _ he rfl rfl)]
    by_cases h0 : items = []
    · subst h0
      exact foldlM_cons_of_step? (step?_close (.array [] :: stack) .closeArray (.inl rfl) rfl hd) rest
    · rw [foldlM_items items h0 h stack (.inr rfl) []]
      refine foldlM_cons_of_step? (step?_close _ .closeArray (.inr (.inr rfl)) rfl ?_) rest
      rw [takeClose, List.append_nil, List.reverse_reverse]
      exact hd
  | obj members, h, hd => by
    rw [marksOf, List.cons_append, List.cons_append, List.append_assoc,
      foldlM_cons_of_step? (step?_value _ he rfl rfl)]
    by_cases h0 : members = []
    · subst h0
      exact foldlM_cons_of_step? (step?_close (.object [] :: stack) .closeObject (.inr (.inl rfl)) rfl hd)
        rest
    · rw [foldlM_members members h0 h.2 stack (.inr rfl) [] h.1]
      exact foldlM_cons_of_step? (step?_close (.object members :: stack) .closeObject (.inr (.inr rfl))
        rfl hd) rest

theorem foldlM_items (items : List Json) (h0 : items ≠ []) (h : ArePlain items)
    (stack : List Frame) {expected : Expectation}
    (he : expected = .value ∨ expected = .valueOrClose) (before : List Json) (rest : List Mark) :
    (commas (marksOfItems items) ++ rest).foldlM step ⟨.array before :: stack, expected⟩
      = rest.foldlM step ⟨.array (items.reverse ++ before) :: stack, .commaOrClose⟩ :=
  match items, h0, h with
  | [], h0, _ => absurd rfl h0
  | [j], _, h => foldlM_marksOf h.1 he rfl rest
  | j :: k :: items, _, h => by
    have ht := foldlM_items (k :: items) (by simp) h.2 stack (.inl rfl) (j :: before) rest
    rw [marksOfItems] at ht
    rw [marksOfItems, marksOfItems, commas, List.append_assoc, foldlM_marksOf h.1 he rfl,
      List.cons_append, foldlM_cons_of_step? rfl, ht]
    simp

theorem foldlM_members (members : List (String × Json)) (h0 : members ≠ []) (h : HavePlain members)
    (stack : List Frame) {expected : Expectation} (he : expected = .name ∨ expected = .nameOrClose)
    (before : List (String × Json)) (hn : ((before ++ members).map Prod.fst).Nodup)
    (rest : List Mark) :
    (commas (marksOfMembers members) ++ rest).foldlM step ⟨.object before :: stack, expected⟩
      = rest.foldlM step ⟨.object (before ++ members) :: stack, .commaOrClose⟩ :=
  match members, h0, h, hn with
  | [], h0, _, _ => absurd rfl h0
  | [(name, j)], _, h, hn => by
    rw [marksOfMembers, marksOfMembers, commas]
    exact foldlM_member h.1 he hn rest
  | (name, j) :: m :: members, _, h, hn => by
    have ht := foldlM_members (m :: members) (by simp) h.2 stack (.inl rfl)
      (before ++ [(name, j)]) (by simpa using hn) rest
    obtain ⟨name', k⟩ := m
    rw [marksOfMembers] at ht
    rw [marksOfMembers, marksOfMembers, commas, List.append_assoc, foldlM_member h.1 he hn,
      List.cons_append, foldlM_cons_of_step? rfl, ht]
    simp

theorem foldlM_member {name : String} {j : Json} {more : List (String × Json)} (h : IsPlain j)
    {stack : List Frame} {expected : Expectation} (he : expected = .name ∨ expected = .nameOrClose)
    {before : List (String × Json)} (hn : ((before ++ (name, j) :: more).map Prod.fst).Nodup)
    (rest : List Mark) :
    (.string name :: .colon :: marksOf j ++ rest).foldlM step ⟨.object before :: stack, expected⟩
      = rest.foldlM step ⟨.object (before ++ [(name, j)]) :: stack, .commaOrClose⟩ := by
  have hm : name ∉ before.map Prod.fst := by
    rw [List.map_append, List.nodup_append] at hn
    exact fun hm => hn.2.2 name hm name (by simp) rfl
  have hs : (⟨.object before :: stack, expected⟩ : Machine).step? (.string name)
      = some ⟨.member before name :: stack, .colon⟩ := by rcases he with rfl | rfl <;> rfl
  rw [List.cons_append, List.cons_append, foldlM_cons_of_step? hs, foldlM_cons_of_step? rfl]
  refine foldlM_marksOf h (.inl rfl) ?_ rest
  rw [deliver, putEntry_of_not_mem hm]

end

end Machine

/-! ## What stored texts are checked for -/

theorem deepest_comma (depth : Nat) (rest : List Mark) :
    deepest depth (.comma :: rest) = deepest depth rest := rfl

theorem deepest_name (depth : Nat) (name : String) (rest : List Mark) :
    deepest depth (.string name :: .colon :: rest) = deepest depth rest := rfl

/-- Where an empty array or object counts as nothing, it is less deep than others. -/
theorem deepest_open_le {m : Mark} (hm : m = .openArray ∨ m = .openObject) (depth : Nat)
    (rest : List Mark) : deepest depth (m :: rest) ≤ deepest (depth + 1) rest := by
  rw [deepest.eq_def]
  split
  case h_2 h | h_3 h =>
    injection h with _ h
    subst h
    simp only [deepest, Nat.add_sub_cancel]
    omega
  case h_4 h | h_5 h =>
    injection h with _ h
    subst h
    exact Nat.le_refl _
  all_goals rcases hm with rfl | rfl <;> simp_all

mutual

/-- **The marks of a value lie no deeper than it is high.** -/
theorem deepest_marksOf (depth : Nat) (j : Json) (rest : List Mark) :
    deepest depth (marksOf j ++ rest) ≤ max (depth + height j) (deepest depth rest) :=
  match j with
  | null | bool _ | int _ | float _ | str _ => Nat.le_max_right ..
  | arr items => by
    have ho := deepest_open_le (.inl rfl) depth (commas (marksOfItems items) ++ ([.closeArray] ++ rest))
    have hi := deepest_items (depth + 1) items (.closeArray :: rest)
    rw [marksOf, List.cons_append, List.cons_append, List.append_assoc, height]
    simp only [deepest, Nat.add_sub_cancel] at hi
    have := Nat.le_trans ho hi
    omega
  | obj members => by
    have ho := deepest_open_le (.inr rfl) depth (commas (marksOfMembers members) ++ ([.closeObject] ++ rest))
    have hi := deepest_members (depth + 1) members (.closeObject :: rest)
    rw [marksOf, List.cons_append, List.cons_append, List.append_assoc, height]
    simp only [deepest, Nat.add_sub_cancel] at hi
    have := Nat.le_trans ho hi
    omega

theorem deepest_items (depth : Nat) (items : List Json) (rest : List Mark) :
    deepest depth (commas (marksOfItems items) ++ rest)
      ≤ max (depth + heightItems items) (deepest depth rest) :=
  match items with
  | [] => Nat.le_max_right ..
  | [j] => by
    have := deepest_marksOf depth j rest
    rw [marksOfItems, marksOfItems, commas, heightItems, heightItems]
    omega
  | j :: k :: items => by
    have h1 := deepest_marksOf depth j (.comma :: (commas (marksOfItems (k :: items)) ++ rest))
    have h2 := deepest_items depth (k :: items) rest
    rw [deepest_comma] at h1
    rw [marksOfItems] at h1 h2
    rw [marksOfItems, marksOfItems, commas, heightItems, List.append_assoc, List.cons_append]
    omega

theorem deepest_members (depth : Nat) (members : List (String × Json)) (rest : List Mark) :
    deepest depth (commas (marksOfMembers members) ++ rest)
      ≤ max (depth + heightMembers members) (deepest depth rest) :=
  match members with
  | [] => Nat.le_max_right ..
  | [(name, j)] => by
    have := deepest_marksOf depth j rest
    rw [marksOfMembers, marksOfMembers, commas, heightMembers, heightMembers, List.cons_append,
      List.cons_append, deepest_name]
    omega
  | (name, j) :: m :: members => by
    have h1 := deepest_marksOf depth j (.comma :: (commas (marksOfMembers (m :: members)) ++ rest))
    have h2 := deepest_members depth (m :: members) rest
    obtain ⟨name', k⟩ := m
    rw [deepest_comma] at h1
    rw [marksOfMembers] at h1 h2
    rw [marksOfMembers, marksOfMembers, commas, heightMembers, List.append_assoc, List.cons_append,
      List.cons_append, List.cons_append, deepest_name]
    omega

end

/-- A text that holds no half of a pair and no second line end. -/
structure IsClean (text : List Char) : Prop where
  hasHalf : ∀ rest, hasHalf (text ++ rest) = hasHalf rest
  not_mem : '\r' ∉ text

theorem IsClean.append {a b : List Char} (ha : IsClean a) (hb : IsClean b) : IsClean (a ++ b) where
  hasHalf rest := by rw [List.append_assoc, ha.hasHalf, hb.hasHalf]
  not_mem h := (List.mem_append.1 h).elim ha.not_mem hb.not_mem

theorem isClean_of_forall {text : List Char} (h : ∀ c ∈ text, c ≠ '\\' ∧ c ≠ '\r') :
    IsClean text where
  hasHalf rest := by
    induction text with
    | nil => rfl
    | cons c cs ih =>
      rw [List.cons_append, hasHalf_cons (h c List.mem_cons_self).1,
        ih fun d hd => h d (List.mem_cons_of_mem _ hd)]
  not_mem hm := (h _ hm).2 rfl

theorem isClean_quote (s : String) : IsClean (quote false s) where
  hasHalf rest := by
    rw [quote, List.cons_append, List.cons_append, List.append_assoc, hasHalf_cons (by decide),
      hasHalf_flatMap, List.singleton_append, hasHalf_cons (by decide)]
  not_mem hm := absurd (mem_quote hm) (by decide)

theorem isClean_of_all {text : List Char} (h : text.all (fun c => c != '\\' && c != '\r') = true) :
    IsClean text :=
  isClean_of_forall fun c hc => by simpa using List.all_eq_true.1 h c hc

theorem isClean_newline (depth : Nat) : IsClean (newline depth) := by
  refine isClean_of_forall fun c hc => ?_
  rcases List.mem_cons.1 hc with rfl | hc
  · decide
  · rw [(List.mem_replicate.1 hc).2]
    decide

theorem isClean_intersperse {separator : List Char} (hs : IsClean separator)
    {texts : List (List Char)} (h : ∀ t ∈ texts, IsClean t) :
    IsClean (intersperse separator texts) := by
  induction texts with
  | nil => exact isClean_of_forall nofun
  | cons t texts ih =>
    have ht := h t List.mem_cons_self
    cases texts with
    | nil => exact ht
    | cons u texts =>
      exact (ht.append hs).append (ih fun v hv => h v (List.mem_cons_of_mem _ hv))

theorem isClean_lines (depth : Nat) {left right : Char} (hl : IsClean [left]) (hr : IsClean [right])
    {texts : List (List Char)} (h : ∀ t ∈ texts, IsClean t) :
    IsClean (lines depth left right texts) := by
  unfold lines
  split
  · exact hl.append hr
  · have hc : IsClean [','] := isClean_of_all rfl
    exact ((hl.append (isClean_newline _)).append (isClean_intersperse (hc.append (isClean_newline _)) h)
      |>.append (isClean_newline _)).append hr

mutual

theorem isClean_pretty (depth : Nat) {j : Json} (h : IsPlain j) : IsClean (prettyChars depth j) :=
  match j, h with
  | null, _ => by
    rw [prettyChars]
    exact isClean_of_all rfl
  | bool b, _ => by
    rw [prettyChars]
    cases b <;> exact isClean_of_all rfl
  | str s, _ => isClean_quote s
  | arr items, h => by
    rw [prettyChars]
    exact isClean_lines depth (isClean_of_all rfl) (isClean_of_all rfl)
      (isClean_items (depth + 1) items h)
  | obj members, h => by
    rw [prettyChars]
    exact isClean_lines depth (isClean_of_all rfl) (isClean_of_all rfl)
      (isClean_members (depth + 1) members h.2)

theorem isClean_items (depth : Nat) (items : List Json) (h : ArePlain items) :
    ∀ t ∈ prettyItems depth items, IsClean t :=
  match items, h with
  | [], _ => nofun
  | j :: rest, h => by
    intro t ht
    rw [prettyItems] at ht
    rcases List.mem_cons.1 ht with rfl | ht
    · exact isClean_pretty depth h.1
    · exact isClean_items depth rest h.2 t ht

theorem isClean_members (depth : Nat) (members : List (String × Json)) (h : HavePlain members) :
    ∀ t ∈ prettyMembers depth members, IsClean t :=
  match members, h with
  | [], _ => nofun
  | (name, j) :: rest, h => by
    intro t ht
    rw [prettyMembers] at ht
    rcases List.mem_cons.1 ht with rfl | ht
    · have hc : IsClean [':', ' '] := isClean_of_all rfl
      exact ((isClean_quote name).append hc).append (isClean_pretty depth h.1)
    · exact isClean_members depth rest h.2 t ht

end

/-! ## The round trip -/

/-- The marks of a whole text. -/
theorem HasMarks.eq {text : List Char} {ms : List Mark} (h : HasMarks text ms) :
    marks text = ms := by
  have := h []
  rwa [List.append_nil, marks, List.append_nil] at this

theorem ofMarks_marksOf {j : Json} (h : IsPlain j) : ofMarks (marksOf j) = .ok j := by
  have hf := Machine.foldlM_marksOf h (.inl rfl) (Machine.deliver_nil j) []
  rw [List.append_nil] at hf
  rw [ofMarks, show (marksOf j).foldlM Machine.step Machine.start = .ok ⟨[], .nothing j⟩ from hf]
  rfl

/-- **A text that has the marks of a value is read as it**, wherever it has blanks. -/
theorem read_of_hasMarks {j : Json} (h : IsPlain j) {text : List Char}
    (ht : HasMarks text (marksOf j)) : read (String.ofList text) = .ok j := by
  rw [read, String.toList_ofList, ht.eq, ofMarks_marksOf h]

theorem read_pretty {j : Json} (h : IsPlain j) : read j.pretty = .ok j :=
  read_of_hasMarks h (hasMarks_pretty 0 h)

theorem read_compact {j : Json} (h : IsPlain j) : read j.compact = .ok j :=
  read_of_hasMarks h (hasMarks_compact h)

/-- **The text of a value without numbers is read as that value.** -/
theorem readStored?_pretty {j : Json} (h : IsPlain j) (hd : height j ≤ maxNesting) :
    readStored? j.pretty = some j := by
  have hm : marks (prettyChars 0 j) = marksOf j := (hasMarks_pretty 0 h).eq
  have hh : hasHalf (prettyChars 0 j) = false := by
    have := (isClean_pretty 0 h).hasHalf []
    rwa [List.append_nil, hasHalf] at this
  have hn : deepest 0 (marksOf j) ≤ maxNesting := by
    have := deepest_marksOf 0 j []
    rw [List.append_nil, deepest] at this
    omega
  have hr : read (String.ofList (prettyChars 0 j)) = .ok j := read_pretty h
  simp only [readStored?, pretty, String.toList_ofList, hm, hh, Nat.not_lt.2 hn, Bool.false_or,
    decide_false, Bool.false_eq_true, if_false, read?, hr]
  rfl

theorem unifyLineEnds_of_not_mem {cs : List Char} (h : '\r' ∉ cs) : Text.unifyLineEnds cs = cs := by
  induction cs with
  | nil => rfl
  | cons c cs ih =>
    rw [List.mem_cons, not_or] at h
    rw [Text.unifyLineEnds, ih h.2]
    · exact fun _ hc => absurd hc.symm h.1
    · exact fun hc => h.1 hc.symm

/-- Its line ends stay as they are. -/
theorem unifyLineEnds_pretty {j : Json} (h : IsPlain j) :
    Text.unifyLineEnds j.pretty.toList = j.pretty.toList := by
  rw [pretty, String.toList_ofList]
  exact unifyLineEnds_of_not_mem (isClean_pretty 0 h).not_mem

end Json

end SpecTree
