import SpecTree.Proofs.Json.Objects
import SpecTree.Proofs.Json.RoundTrip
import SpecTree.Proofs.Text.Conversions
import SpecTree.Provider.Response

/-!
# The object in a response

The whole text of a response, its first fenced block, and what stands between its outermost braces are tried in
turn, and the first that is an object counts (`extractJson_eq`).

1. `extractJson_embedded`: where no brace opens before an object and none closes behind it, its braces are the
   outermost ones. A fenced block can hold another object only if a fence stands in the text of the first one
   (`fenced_object_unique`), since the ends of a fence reach into no other text.
2. `extractJson_fenced`: with a fenced block behind it, a text is read as if it broke off there. So it is no
   object, and the block is the next candidate, unless a whole number that is too long ends the search before.
-/

namespace SpecTree.Response

open Json Text

/-! ## The first occurrence of a mark -/

section

variable {mark before after cs front back : List Char}

theorem eq_of_splitAround? (h : splitAround? mark cs = some (before, after)) :
    cs = before ++ mark ++ after := by
  induction cs generalizing before with
  | nil =>
    rw [splitAround?] at h
    split at h
    · next hm =>
      cases h
      simp [List.isEmpty_iff.1 hm]
    · cases h
  | cons c cs ih =>
    rw [splitAround?] at h
    split at h
    · next hm =>
      cases h
      exact (List.prefix_iff_eq_append.1 (List.isPrefixOf_iff_prefix.1 hm)).symm
    · obtain ⟨⟨b, a⟩, hb, heq⟩ := Option.map_eq_some_iff.1 h
      cases heq
      rw [List.cons_append, List.cons_append, ← ih hb]

/-- A text in which the mark does not stand, and into whose end it does not reach. -/
theorem splitAround?_append (hn : ¬ mark <:+: front) (hl : ∀ c ∈ front.getLast?, c ∉ mark) (back : List Char) :
    splitAround? mark (front ++ mark ++ back) = some (front, back) := by
  induction front with
  | nil =>
    obtain ⟨c, rest, rfl⟩ := List.exists_cons_of_ne_nil (show mark ≠ [] by rintro rfl; exact hn List.infix_rfl)
    rw [List.nil_append, List.cons_append, splitAround?, if_pos]
    · simp
    · exact List.isPrefixOf_iff_prefix.2 (List.prefix_append _ _)
  | cons c front ih =>
    have hstart : ¬ mark <+: c :: (front ++ mark ++ back) := by
      intro hm
      rw [List.append_assoc, ← List.cons_append] at hm
      rcases List.prefix_or_prefix_of_prefix hm (List.prefix_append _ _) with hshort | hlong
      · exact hn hshort.isInfix
      · -- The text would lie in the mark, and its last character with it.
        obtain ⟨d, hd⟩ := Option.isSome_iff_exists.1 (show (c :: front).getLast?.isSome = true by simp)
        exact hl d hd (hlong.subset (List.mem_of_mem_getLast? hd))
    have hlast : ∀ d ∈ front.getLast?, d ∉ mark := by
      intro d hd
      refine hl d ?_
      cases front with
      | nil => cases hd
      | cons e front => rwa [List.getLast?_cons_cons]
    rw [List.cons_append, List.cons_append, splitAround?, if_neg fun hm => hstart (List.isPrefixOf_iff_prefix.1 hm),
      ih (fun hm => hn (List.infix_cons hm)) hlast]
    rfl

/-- Where a mark stands that the part `cs` does not hold, nor touches with its ends. -/
theorem occurrence_cases (h : front ++ cs ++ back = before ++ mark ++ after) (hn : ¬ mark <:+: cs)
    (hne : cs ≠ []) (hhead : ∀ c ∈ cs.head?, c ∉ mark) (hlast : ∀ c ∈ cs.getLast?, c ∉ mark) :
    (∃ inner, front = before ++ mark ++ inner ∧ after = inner ++ cs ++ back) ∨
      ∃ inner, back = inner ++ mark ++ after ∧ before = front ++ cs ++ inner := by
  rw [List.append_assoc] at h
  rcases List.append_eq_append_iff.1 h with ⟨t, ht, hrest⟩ | ⟨inner, hfront, hafter⟩
  · rcases List.append_eq_append_iff.1 hrest with ⟨s, rfl, hback⟩ | ⟨j, rfl, hafter⟩
    · -- The mark ends behind the part. If it began in it, it would hold its last character.
      rw [← List.append_assoc] at ht
      rcases List.append_eq_append_iff.1 ht with ⟨u, hu, rfl⟩ | ⟨inner, hbefore, rfl⟩
      · by_cases hnil : u = []
        · subst hnil
          exact .inr ⟨[], by simpa using hback, by simpa using hu.symm⟩
        · obtain ⟨z, hz⟩ := Option.isSome_iff_exists.1 (show cs.getLast?.isSome = true by simpa using hne)
          have hu' : u.getLast? = some z := by
            rw [← List.getLast?_append_of_ne_nil before hnil, ← hu, List.getLast?_append_of_ne_nil front hne, hz]
          exact absurd (List.mem_append_left s (List.mem_of_mem_getLast? hu')) (hlast z hz)
      · exact .inr ⟨inner, hback, hbefore⟩
    · -- The mark ends inside of the part. If it began before it, it would hold its first character.
      rcases List.append_eq_append_iff.1 ht with ⟨u, hu, rfl⟩ | ⟨inner, hbefore, rfl⟩
      · cases t with
        | nil => exact .inl ⟨[], by simpa using hu, by simpa using hafter⟩
        | cons c t => exact absurd (List.mem_append_right u List.mem_cons_self) (hhead c rfl)
      · exact absurd ⟨inner, j, rfl⟩ hn
  · exact .inl ⟨inner, hfront, by rw [hafter, List.append_assoc]⟩

end

/-! ## The braces -/

section

variable {front cs back inner : List Char} {members members' : List (String × Json)}

theorem bracedPart?_eq (hf : '\x7b' ∉ front) (hb : '\x7d' ∉ back) :
    bracedPart? (front ++ ('\x7b' :: inner ++ ['\x7d']) ++ back) = some ('\x7b' :: inner ++ ['\x7d']) := by
  have hopen : (front ++ ('\x7b' :: inner ++ ['\x7d']) ++ back).dropWhile (· != '\x7b') =
      '\x7b' :: inner ++ ['\x7d'] ++ back := by
    rw [List.append_assoc]
    refine dropWhile_append_of_stop (fun c hc => bne_iff_ne.2 fun he => hf (he ▸ hc)) fun c hc => ?_
    cases hc
    rfl
  have hclose : ('\x7b' :: inner ++ ['\x7d'] ++ back).reverse.dropWhile (· != '\x7d') =
      ('\x7b' :: inner ++ ['\x7d']).reverse := by
    rw [List.reverse_append]
    refine dropWhile_append_of_stop
      (fun c hc => bne_iff_ne.2 fun he => hb (he ▸ List.mem_reverse.1 hc)) fun c hc => ?_
    rw [List.reverse_append] at hc
    cases hc
    rfl
  unfold bracedPart?
  simp only [hopen, hclose, List.reverse_reverse]
  rfl

theorem eq_of_append_cons {a a' x y : List Char} {c : Char} (ha : c ∉ a) (ha' : c ∉ a')
    (h : a ++ c :: x = a' ++ c :: y) : a = a' := by
  have hsplit {l x : List Char} (hl : c ∉ l) : splitWhile (· != c) (l ++ c :: x) = (l, c :: x) :=
    splitWhile_of_all (fun d hd => bne_iff_ne.2 (ne_of_mem_of_not_mem hd hl)) (by simp)
  exact congrArg Prod.fst ((hsplit ha).symm.trans (h ▸ hsplit ha'))

theorem not_mem_of_spaces {c : Char} (h : ∀ c ∈ cs, isSpace c = true) (hc : isSpace c = false) : c ∉ cs :=
  fun hm => by rw [h c hm] at hc; cases hc

/-- The braces around an object that stands among other words. -/
theorem exists_bracedPart? (h : ofMarks (marks cs) = .ok (.obj members)) (hf : '\x7b' ∉ front)
    (hb : '\x7d' ∉ back) : ∃ core, bracedPart? (front ++ cs ++ back) = some core ∧
      ofMarks (marks core) = .ok (.obj members) := by
  obtain ⟨before, inner, after, rfl, hbefore, hafter, hcore⟩ := exists_object_of_ofMarks h
  refine ⟨_, ?_, hcore⟩
  have hsplit : front ++ (before ++ ('\x7b' :: inner ++ ['\x7d']) ++ after) ++ back =
      (front ++ before) ++ ('\x7b' :: inner ++ ['\x7d']) ++ (after ++ back) := by
    simp only [List.append_assoc]
  rw [hsplit, bracedPart?_eq]
  · rw [List.mem_append, not_or]
    exact ⟨hf, not_mem_of_spaces hbefore rfl⟩
  · rw [List.mem_append, not_or]
    exact ⟨not_mem_of_spaces hafter rfl, hb⟩

/-- **One text has one object** between its first opening and its last closing brace. -/
theorem object_unique {front' cs' back' : List Char} (h : ofMarks (marks cs) = .ok (.obj members))
    (h' : ofMarks (marks cs') = .ok (.obj members')) (he : front ++ cs ++ back = front' ++ cs' ++ back')
    (hf : '\x7b' ∉ front) (hb : '\x7d' ∉ back) (hf' : '\x7b' ∉ front') (hb' : '\x7d' ∉ back') :
    members' = members := by
  obtain ⟨core, hcore, hread⟩ := exists_bracedPart? h hf hb
  obtain ⟨core', hcore', hread'⟩ := exists_bracedPart? h' hf' hb'
  rw [← he, hcore] at hcore'
  cases hcore'
  cases hread.symm.trans hread'
  rfl

end

/-! ## The first fenced block -/

section

variable {front cs back block : List Char} {members other : List (String × Json)}

theorem backtick_of_mem_fence : ∀ c ∈ fence, c = '\x60' := by simp [fence]

theorem exists_of_fencedBlock? (h : fencedBlock? cs = some block) :
    ∃ before after tag body rest, splitAround? fence cs = some (before, after) ∧ after = tag ++ body ++ fence ++ rest ∧
      '\x7b' ∉ tag ∧ block = stripChars body := by
  unfold fencedBlock? at h
  split at h
  · cases h
  · next before after hsplit =>
    obtain ⟨⟨body, rest⟩, hbody, rfl⟩ := Option.map_eq_some_iff.1 h
    have hdrop : ∃ tag, after = tag ++ dropMark ['j', 's', 'o', 'n'] after ∧ '\x7b' ∉ tag := by
      unfold dropMark
      split
      · next hp =>
        refine ⟨['j', 's', 'o', 'n'], ?_, by decide⟩
        exact (List.prefix_iff_eq_append.1 (List.isPrefixOf_iff_prefix.1 hp)).symm
      · exact ⟨[], rfl, List.not_mem_nil⟩
    obtain ⟨tag, htag, hbrace⟩ := hdrop
    refine ⟨before, after, tag, body, rest, hsplit, ?_, hbrace, rfl⟩
    rw [htag, eq_of_splitAround? hbody]
    simp only [List.append_assoc]

/-- The text of an object begins and ends with a blank or a brace. -/
theorem ends_of_object (h : ofMarks (marks cs) = .ok (.obj members)) :
    '\x7b' ∈ cs ∧ '\x7d' ∈ cs ∧ (∀ c ∈ cs.head?, c ∉ fence) ∧ ∀ c ∈ cs.getLast?, c ∉ fence := by
  obtain ⟨before, inner, after, rfl, hbefore, hafter, -⟩ := exists_object_of_ofMarks h
  have hfence {c : Char} (hc : isSpace c = true ∨ c = '\x7b' ∨ c = '\x7d') : c ∉ fence := by
    intro hm
    obtain rfl := backtick_of_mem_fence c hm
    revert hc
    decide
  refine ⟨by simp, by simp, fun c hc => hfence ?_, fun c hc => hfence ?_⟩
  · rw [List.append_assoc, List.head?_append] at hc
    rcases Option.or_eq_some_iff.1 hc with hc | ⟨-, hc⟩
    · exact .inl (hbefore c (List.mem_of_mem_head? hc))
    · cases hc
      exact .inr (.inl rfl)
  · rw [List.getLast?_append] at hc
    rcases Option.or_eq_some_iff.1 hc with hc | ⟨-, hc⟩
    · exact .inl (hafter c (List.mem_of_mem_getLast? hc))
    · rw [← List.append_assoc, List.getLast?_concat] at hc
      cases hc
      exact .inr (.inr rfl)

/-- **A fenced block can only hold another object where a fence stands in the text of the object.** -/
theorem fenced_object_unique (h : ofMarks (marks cs) = .ok (.obj members)) (hn : ¬ fence <:+: cs)
    (hf : '\x7b' ∉ front) (hb : '\x7d' ∉ back) (hblock : fencedBlock? (front ++ cs ++ back) = some block)
    (hother : ofMarks (marks block) = .ok (.obj other)) : other = members := by
  obtain ⟨before, after, tag, body, rest, hsplit, hafter, htag, rfl⟩ := exists_of_fencedBlock? hblock
  obtain ⟨x, y, hbody, hx, hy⟩ := exists_stripChars body
  obtain ⟨hopen, hclose, hhead, hlast⟩ := ends_of_object h
  obtain ⟨hopen', hclose', -, -⟩ := ends_of_object hother
  have hne : cs ≠ [] := List.ne_nil_of_mem hopen
  have hsub : stripChars body ⊆ body := fun c hc => by
    rw [hbody]
    exact List.mem_append_left y (List.mem_append_right x hc)
  rcases occurrence_cases (eq_of_splitAround? hsplit) hn hne hhead hlast with
    ⟨front', rfl, hmid⟩ | ⟨back', rfl, -⟩
  · have hf' : '\x7b' ∉ front' := fun hm => hf (List.mem_append_right _ hm)
    rcases occurrence_cases (hmid.symm.trans hafter) hn hne hhead hlast with
      ⟨front'', rfl, -⟩ | ⟨back', rfl, hbetween⟩
    · -- The block ends before the object, where no brace opens.
      refine absurd (hsub hopen') fun hm => hf' ?_
      exact List.mem_append_left _ (List.mem_append_left _ (List.mem_append_right _ hm))
    · -- The block holds the object.
      have hblank {c : Char} (hc : isBlank c = false) {l : List Char} (hl : ∀ c ∈ l, isBlank c = true) :
          c ∉ l := fun hm => by rw [hl c hm] at hc; cases hc
      have he : front' ++ cs ++ back' = (tag ++ x) ++ stripChars body ++ y := by
        rw [← hbetween, List.append_assoc tag, List.append_assoc tag, ← hbody]
      refine object_unique h hother he hf' (fun hm => hb ?_) ?_ (hblank rfl hy)
      · exact List.mem_append_left _ (List.mem_append_left _ hm)
      · rw [List.mem_append, not_or]
        exact ⟨htag, hblank rfl hx⟩
  · -- The block begins behind the object, where no brace closes.
    refine absurd (hsub hclose') fun hm => hb ?_
    rw [hafter]
    refine List.mem_append_right _ (List.mem_append_left _ (List.mem_append_left _ ?_))
    exact List.mem_append_right _ hm

end

/-! ## Candidates in turn -/

/-- The object that a text is, if it is one. -/
def objectOf? (cs : List Char) : Option Json :=
  match ofMarks (marks cs) with
  | .ok (.obj members) => some (.obj members)
  | _ => none

/-- The object in the first fenced block of a text. -/
def fencedObject? (text : String) : Option Json := (fencedBlock? text.toList).bind objectOf?

/-- The text is not refused for a whole number that is too long. -/
def HasShortNumbers (cs : List Char) : Prop := ∀ digits, ofMarks (marks cs) ≠ .error (.longNumber digits)

section

variable {cs : List Char} {rest : List (List Char)} {members : List (String × Json)} {j : Json}

theorem read_eq (text : String) : read text = ofMarks (marks text.toList) := rfl

theorem objectOf?_eq_some_iff : objectOf? cs = some j ↔ ∃ members, j = .obj members ∧
    ofMarks (marks cs) = .ok (.obj members) := by
  unfold objectOf?
  constructor
  · intro h
    split at h
    · next members hm =>
      cases h
      exact ⟨members, rfl, hm⟩
    · cases h
  · rintro ⟨members, rfl, hm⟩
    rw [hm]

theorem hasShortNumbers_of_object (h : ofMarks (marks cs) = .ok (.obj members)) : HasShortNumbers cs :=
  fun digits hd => by cases h.symm.trans hd

theorem firstObject?_cons (h : HasShortNumbers cs) (rest : List (List Char)) :
    firstObject? (cs :: rest) = match objectOf? cs with
      | some j => .ok (some j)
      | none => firstObject? rest := by
  rw [firstObject?, read_eq, String.toList_ofList, objectOf?]
  cases hm : ofMarks (marks cs) with
  | error problem =>
    cases problem with
    | malformed => rfl
    | longNumber digits => exact absurd hm (h digits)
  | ok j => cases j <;> rfl

/-- Without numbers that are too long, the first object counts. -/
theorem firstObject?_eq {parts : List (List Char)} (h : ∀ part ∈ parts, HasShortNumbers part) :
    firstObject? parts = .ok (parts.findSome? objectOf?) := by
  induction parts with
  | nil => rfl
  | cons part parts ih =>
    obtain ⟨hpart, hparts⟩ := List.forall_mem_cons.1 h
    rw [firstObject?_cons hpart, List.findSome?_cons]
    cases objectOf? part with
    | none => exact ih hparts
    | some j => rfl

theorem extractJson_eq {text : String} (h : ∀ part ∈ candidates text.toList, HasShortNumbers part) :
    extractJson text = match (candidates text.toList).findSome? objectOf? with
      | some j => .ok j
      | none => .error (unreadable text) := by
  rw [extractJson, firstObject?_eq h]
  cases (candidates text.toList).findSome? objectOf? <;> rfl

theorem findSome?_candidates (cs : List Char) : (candidates cs).findSome? objectOf? =
    (objectOf? cs).or (((fencedBlock? cs).bind objectOf?).or ((bracedPart? cs).bind objectOf?)) := by
  rw [candidates, List.findSome?_cons, List.findSome?_append]
  have htoList (part : Option (List Char)) : part.toList.findSome? objectOf? = part.bind objectOf? := by
    cases part with
    | none => rfl
    | some part => simp
  rw [htoList, htoList]
  cases objectOf? cs <;> rfl

end

/-! ## An object among other words -/

section

variable {p j s : String} {members : List (String × Json)}

/-- Nothing but JSON blanks stands around an object that is the whole text. -/
theorem isSpace_of_object {front cs back : List Char} {other : List (String × Json)}
    (h : ofMarks (marks cs) = .ok (.obj members)) (hf : '\x7b' ∉ front) (hb : '\x7d' ∉ back)
    (hwhole : ofMarks (marks (front ++ cs ++ back)) = .ok (.obj other)) :
    ∀ c ∈ front ++ back, isSpace c = true := by
  obtain ⟨before, inner, after, rfl, hbefore, hafter, -⟩ := exists_object_of_ofMarks h
  obtain ⟨before', inner', after', he, hbefore', hafter', -⟩ := exists_object_of_ofMarks hwhole
  have hopen : front ++ before = before' := by
    refine eq_of_append_cons (c := '\x7b') ?_ (not_mem_of_spaces hbefore' rfl)
      (x := inner ++ ['\x7d'] ++ after ++ back) (y := inner' ++ ['\x7d'] ++ after') (by simpa using he)
    rw [List.mem_append, not_or]
    exact ⟨hf, not_mem_of_spaces hbefore rfl⟩
  have hclose : (after ++ back).reverse = after'.reverse := by
    refine eq_of_append_cons (c := '\x7d') ?_ (fun hm => not_mem_of_spaces hafter' rfl (List.mem_reverse.1 hm))
      (x := (front ++ before ++ '\x7b' :: inner).reverse) (y := (before' ++ '\x7b' :: inner').reverse)
      (by simpa using congrArg List.reverse he)
    rw [List.mem_reverse, List.mem_append, not_or]
    exact ⟨not_mem_of_spaces hafter rfl, hb⟩
  intro c hc
  rcases List.mem_append.1 hc with hc | hc
  · exact hbefore' c (hopen ▸ List.mem_append_left _ hc)
  · exact hafter' c (List.reverse_inj.1 hclose ▸ List.mem_append_right _ hc)

/-- The text as a whole is no other object, and it is one only without other words. -/
theorem eq_of_whole_object {front cs back : List Char} {found : Json}
    (h : ofMarks (marks cs) = .ok (.obj members)) (hf : '\x7b' ∉ front) (hb : '\x7d' ∉ back)
    (hfound : objectOf? (front ++ cs ++ back) = some found) :
    found = .obj members ∧ ∀ c ∈ front ++ back, isSpace c = true := by
  obtain ⟨other, rfl, hread⟩ := objectOf?_eq_some_iff.1 hfound
  have halone : front ++ cs ++ back = [] ++ (front ++ cs ++ back) ++ [] := by simp
  have hsame := object_unique h hread halone hf hb List.not_mem_nil List.not_mem_nil
  exact ⟨by rw [hsame], isSpace_of_object h hf hb hread⟩

theorem toList_between (p j s : String) : (p ++ j ++ s).toList = p.toList ++ j.toList ++ s.toList := by
  rw [String.toList_append, String.toList_append]

/-- An object that is the whole text, blanks aside, is found before anything else is looked at. -/
theorem extractJson_of_spaces (hj : Json.read j = .ok (.obj members))
    (hspaces : ∀ c ∈ p.toList ++ s.toList, isSpace c = true) :
    extractJson (p ++ j ++ s) = .ok (.obj members) := by
  obtain ⟨hbefore, hafter⟩ := List.forall_mem_append.1 hspaces
  have hread : Json.read (p ++ j ++ s) = .ok (.obj members) := by
    rw [read_eq, toList_between, marks_append_spaces hafter, marks_spaces hbefore, ← read_eq, hj]
  have hfirst : firstObject? (candidates (p ++ j ++ s).toList) = .ok (some (.obj members)) := by
    rw [candidates, firstObject?, String.ofList_toList, hread]
  rw [extractJson, hfirst]
  rfl

/-- Behind the fenced block, the braces bring up the object in any case. -/
theorem extractJson_eq_fenced (hj : Json.read j = .ok (.obj members)) (hp : '\x7b' ∉ p.toList)
    (hs : '\x7d' ∉ s.toList) (hl : ∀ part ∈ candidates (p ++ j ++ s).toList, HasShortNumbers part) :
    extractJson (p ++ j ++ s) =
      .ok ((objectOf? (p ++ j ++ s).toList).getD ((fencedObject? (p ++ j ++ s)).getD (.obj members))) := by
  have hobject : ofMarks (marks j.toList) = .ok (.obj members) := hj
  obtain ⟨core, hcore, hread⟩ := exists_bracedPart? hobject hp hs
  have hbraced : (bracedPart? (p ++ j ++ s).toList).bind objectOf? = some (.obj members) := by
    rw [toList_between, hcore]
    exact objectOf?_eq_some_iff.2 ⟨members, rfl, hread⟩
  rw [extractJson_eq hl, findSome?_candidates, hbraced, fencedObject?]
  cases objectOf? (p ++ j ++ s).toList with
  | some found => rfl
  | none => cases (fencedBlock? (p ++ j ++ s).toList).bind objectOf? <;> rfl

/-- **An object is found among other words**: its braces are the outermost ones, and only a fence inside of it
can bring up another object. -/
theorem extractJson_embedded (hj : Json.read j = .ok (.obj members)) (hp : '\x7b' ∉ p.toList)
    (hs : '\x7d' ∉ s.toList) :
    ((∀ c ∈ p.toList ++ s.toList, isSpace c = true) → extractJson (p ++ j ++ s) = .ok (.obj members)) ∧
      ((∀ part ∈ candidates (p ++ j ++ s).toList, HasShortNumbers part) →
        (¬ fence <:+: j.toList ∨ fencedObject? (p ++ j ++ s) = none →
          extractJson (p ++ j ++ s) = .ok (.obj members)) ∧
        ∀ other, fencedObject? (p ++ j ++ s) = some other →
          ¬ (∀ c ∈ p.toList ++ s.toList, isSpace c = true) → extractJson (p ++ j ++ s) = .ok other) := by
  refine ⟨extractJson_of_spaces hj, fun hl => ?_⟩
  have hresult := extractJson_eq_fenced hj hp hs hl
  have hwhole : ∀ found, objectOf? (p ++ j ++ s).toList = some found →
      found = .obj members ∧ ∀ c ∈ p.toList ++ s.toList, isSpace c = true := by
    rw [toList_between]
    exact fun found hfound => eq_of_whole_object hj hp hs hfound
  constructor
  · intro hno
    have hfenced : ∀ found, fencedObject? (p ++ j ++ s) = some found → found = .obj members := by
      intro found hfound
      rcases hno with hfence | hnone
      · obtain ⟨block, hblock, hheld⟩ := Option.bind_eq_some_iff.1 hfound
        obtain ⟨other, rfl, hread⟩ := objectOf?_eq_some_iff.1 hheld
        rw [toList_between] at hblock
        rw [fenced_object_unique hj hfence hp hs hblock hread]
      · rw [hnone] at hfound
        cases hfound
    rw [hresult]
    cases hraw : objectOf? (p ++ j ++ s).toList with
    | some found => rw [Option.getD_some, (hwhole found hraw).1]
    | none =>
      cases hfound : fencedObject? (p ++ j ++ s) with
      | some found => rw [Option.getD_none, Option.getD_some, hfenced found hfound]
      | none => rfl
  · intro other hother hwords
    have hraw : objectOf? (p ++ j ++ s).toList = none := by
      rw [Option.eq_none_iff_forall_ne_some]
      exact fun found hfound => hwords (hwhole found hfound).2
    rw [hresult, hraw, hother]
    rfl

/-- A sentence around an object. -/
theorem extractJson_embedded_sentence :
    let j := "\x7b\"a\": \"b\"\x7d"
    Json.read j = .ok (.obj [("a", .str "b")]) ∧ '\x7b' ∉ "Result: ".toList ∧ '\x7d' ∉ " as requested".toList ∧
      (∀ part ∈ candidates ("Result: " ++ j ++ " as requested").toList, HasShortNumbers part) ∧
      extractJson ("Result: " ++ j ++ " as requested") = .ok (.obj [("a", .str "b")]) := by
  intro j
  have hj : Json.read j = .ok (.obj [("a", .str "b")]) :=
    read_compact (j := .obj [("a", .str "b")]) ⟨by simp, trivial, trivial⟩
  have hl : ∀ part ∈ candidates ("Result: " ++ j ++ " as requested").toList, HasShortNumbers part := by
    have hparts : candidates ("Result: " ++ j ++ " as requested").toList =
        [("Result: " ++ j ++ " as requested").toList, j.toList] := by decide
    have hbroken : ofMarks (marks ("Result: " ++ j ++ " as requested").toList) = .error .malformed := by
      have htext : "Result: " ++ j ++ " as requested" = "Result: \x7b\"a\": \"b\"\x7d as requested" := rfl
      rw [htext]
      cbv
    rw [hparts]
    refine List.forall_mem_cons.2 ⟨fun digits hd => ?_, List.forall_mem_singleton.2 (hasShortNumbers_of_object hj)⟩
    cases hbroken.symm.trans hd
  refine ⟨hj, by decide, by decide, hl, ?_⟩
  exact ((extractJson_embedded hj (by decide) (by decide)).2 hl).1 (.inl (by decide))

/-- A fenced block inside of a string comes before the object around it. -/
theorem embedded_not_found : ¬ ∀ (p j s : String) (members : List (String × Json)),
    Json.read j = .ok (.obj members) → '\x7b' ∉ p.toList → '\x7d' ∉ s.toList →
    extractJson (p ++ j ++ s) = .ok (.obj members) := by
  intro h
  have hj : Json.read "\x7b\"a\": \"\x60\x60\x60\x7b\x7d\x60\x60\x60\"\x7d" =
      .ok (.obj [("a", .str "\x60\x60\x60\x7b\x7d\x60\x60\x60")]) :=
    read_compact (j := .obj [("a", .str "\x60\x60\x60\x7b\x7d\x60\x60\x60")]) ⟨by simp, trivial, trivial⟩
  have hblock : extractJson ("Result: " ++ "\x7b\"a\": \"\x60\x60\x60\x7b\x7d\x60\x60\x60\"\x7d" ++
      " as requested") = .ok (.obj []) := by
    have htext : "Result: " ++ "\x7b\"a\": \"\x60\x60\x60\x7b\x7d\x60\x60\x60\"\x7d" ++ " as requested" =
        "Result: \x7b\"a\": \"\x60\x60\x60\x7b\x7d\x60\x60\x60\"\x7d as requested" := rfl
    rw [htext]
    cbv
  cases hblock.symm.trans (h "Result: " _ " as requested" _ hj (by decide) (by decide))

end

/-! ## An object in a fenced block -/

section

variable {cs tag : List Char} {members : List (String × Json)}

/-- What a fenced block adds behind a text. -/
def blockOf (tag cs rest : List Char) : List Char := fence ++ (tag ++ '\n' :: cs ++ '\n' :: fence ++ rest)

/-- The language that a block may name. -/
def IsTag (tag : List Char) : Prop := tag = [] ∨ tag = ['j', 's', 'o', 'n']

theorem marks_blockOf (tag cs rest : List Char) : marks (blockOf tag cs rest) = [.broken] :=
  marks_broken (by decide) (by rfl)

theorem endsMarks_blockOf (ht : IsTag tag) (cs rest : List Char) : EndsMarks (blockOf tag cs rest) where
  stop c hc := by
    cases hc
    decide
  unclosed := by
    rcases ht with rfl | rfl <;> simp [blockOf, fence, unquote?]

theorem isBlank_of_isSpace {c : Char} (h : isSpace c = true) : isBlank c = true := by
  simp only [isSpace, Bool.or_eq_true, beq_iff_eq] at h
  rcases h with ((rfl | rfl) | rfl) | rfl <;> rfl

theorem fence_not_within_lines (hn : ¬ fence <:+: cs) : ¬ fence <:+: '\n' :: cs ++ ['\n'] := by
  intro hi
  rcases List.infix_concat_iff.1 hi with ⟨t, ht⟩ | hi
  · have hlast := congrArg List.getLast? ht
    rw [List.getLast?_append_of_ne_nil _ (by decide), List.getLast?_concat] at hlast
    cases hlast
  · rcases List.infix_cons_iff.1 hi with ⟨t, ht⟩ | hi
    · cases ht
    · exact hn hi

theorem exists_fencedBlock? {front : List Char} (hf : '\x60' ∉ front) (ht : IsTag tag)
    (h : ofMarks (marks cs) = .ok (.obj members)) (hn : ¬ fence <:+: cs) (rest : List Char) :
    ∃ core, fencedBlock? (front ++ blockOf tag cs rest) = some core ∧
      ofMarks (marks core) = .ok (.obj members) := by
  obtain ⟨before, inner, after, hcs, hbefore, hafter, hcore⟩ := exists_object_of_ofMarks h
  refine ⟨_, ?_, hcore⟩
  have hfirst : splitAround? fence (front ++ blockOf tag cs rest) =
      some (front, tag ++ '\n' :: cs ++ '\n' :: fence ++ rest) := by
    have hmark : ∀ c ∈ front, c ∉ fence := fun c hc hm => hf (backtick_of_mem_fence c hm ▸ hc)
    rw [blockOf, ← List.append_assoc]
    refine splitAround?_append (fun hi => ?_) (fun c hc => hmark c (List.mem_of_mem_getLast? hc)) _
    exact hmark '\x60' (hi.subset List.mem_cons_self) List.mem_cons_self
  have hdrop : dropMark ['j', 's', 'o', 'n'] (tag ++ '\n' :: cs ++ '\n' :: fence ++ rest) =
      '\n' :: cs ++ ['\n'] ++ fence ++ rest := by
    rcases ht with rfl | rfl <;> simp [dropMark]
  have hsecond : splitAround? fence ('\n' :: cs ++ ['\n'] ++ fence ++ rest) =
      some ('\n' :: cs ++ ['\n'], rest) := by
    refine splitAround?_append (fence_not_within_lines hn) (fun c hc => ?_) rest
    rw [List.getLast?_concat] at hc
    cases hc
    decide
  have hstrip : stripChars ('\n' :: cs ++ ['\n']) = '\x7b' :: inner ++ ['\x7d'] := by
    have hsplit : '\n' :: cs ++ ['\n'] =
        '\n' :: before ++ ('\x7b' :: inner ++ ['\x7d']) ++ (after ++ ['\n']) := by simp [hcs]
    rw [hsplit]
    refine stripChars_between (List.forall_mem_cons.2 ⟨rfl, fun c hc => isBlank_of_isSpace (hbefore c hc)⟩)
      (List.forall_mem_append.2 ⟨fun c hc => isBlank_of_isSpace (hafter c hc), by simp; rfl⟩) (by simp)
      (fun c hc => ?_) fun c hc => ?_
    · cases hc
      rfl
    · rw [List.getLast?_concat] at hc
      cases hc
      rfl
  rw [fencedBlock?, hfirst]
  dsimp only
  rw [hdrop, hsecond, Option.map_some, hstrip]

/-- A number that is too long in the text as a whole ends the search. -/
theorem extractJson_of_longNumber {text : String} {digits : Nat}
    (h : Json.read text = .error (.longNumber digits)) :
    extractJson text = .error ⟨.value, Decimal.tooLong digits⟩ := by
  have hfirst : firstObject? (candidates text.toList) = .error ⟨.value, Decimal.tooLong digits⟩ := by
    rw [candidates, firstObject?, String.ofList_toList, h]
  rw [extractJson, hfirst]
  rfl

/-- What stands before the block is read first, up to the block. -/
theorem extractJson_of_long_before {text : String} {front rest : List Char} {digits : Nat}
    (htext : text.toList = front ++ blockOf tag cs rest) (ht : IsTag tag)
    (h : ofMarks (marks front) = .error (.longNumber digits)) :
    extractJson text = .error ⟨.value, Decimal.tooLong digits⟩ := by
  obtain ⟨problem, hproblem, hlong⟩ :=
    ofMarks_append_broken (endsMarks_blockOf ht cs rest) (marks_blockOf _ _ _) front
  rw [(hlong digits).2 h, ← htext] at hproblem
  exact extractJson_of_longNumber hproblem

theorem extractJson_of_block {text : String} {front rest : List Char}
    (htext : text.toList = front ++ blockOf tag cs rest) (hf : '\x60' ∉ front) (ht : IsTag tag)
    (h : ofMarks (marks cs) = .ok (.obj members)) (hn : ¬ fence <:+: cs) (hshort : HasShortNumbers front) :
    extractJson text = .ok (.obj members) := by
  obtain ⟨problem, hproblem, hlong⟩ :=
    ofMarks_append_broken (endsMarks_blockOf ht cs rest) (marks_blockOf _ _ _) front
  obtain ⟨core, hblock, hcore⟩ := exists_fencedBlock? hf ht h hn rest
  rw [← htext] at hproblem hblock
  have hwhole : HasShortNumbers text.toList := fun digits hd => by
    rw [hproblem] at hd
    exact hshort digits ((hlong digits).1 (Except.error.inj hd))
  have hraw : objectOf? text.toList = none := by
    rw [objectOf?, hproblem]
  have hfenced : objectOf? core = some (.obj members) := objectOf?_eq_some_iff.2 ⟨members, rfl, hcore⟩
  have hfirst : firstObject? (candidates text.toList) = .ok (some (.obj members)) := by
    rw [candidates, firstObject?_cons hwhole, hraw, hblock, Option.toList_some, List.singleton_append]
    dsimp only
    rw [firstObject?_cons (hasShortNumbers_of_object hcore), hfenced]
  rw [extractJson, hfirst]
  rfl

theorem isTag_toList {tag : String} (h : tag = "" ∨ tag = "json") : IsTag tag.toList := by
  rcases h with rfl | rfl
  · exact .inl rfl
  · exact .inr rfl

theorem toList_block (p tag j s : String) :
    (p ++ "\x60\x60\x60" ++ tag ++ "\n" ++ j ++ "\n\x60\x60\x60" ++ s).toList =
      p.toList ++ blockOf tag.toList j.toList s.toList := by
  simp [blockOf, fence]

/-- **An object in a fenced block is found** whatever stands around the block, unless what stands before it is
refused for a whole number that is too long. -/
theorem extractJson_fenced {p tag j s : String} (hp : '\x60' ∉ p.toList) (ht : tag = "" ∨ tag = "json")
    (hj : Json.read j = .ok (.obj members)) (hn : ¬ fence <:+: j.toList) :
    extractJson (p ++ "\x60\x60\x60" ++ tag ++ "\n" ++ j ++ "\n\x60\x60\x60" ++ s) = .ok (.obj members) ↔
      ∀ digits, Json.read p ≠ .error (.longNumber digits) := by
  constructor
  · intro h digits hd
    cases h.symm.trans (extractJson_of_long_before (toList_block p tag j s) (isTag_toList ht) hd)
  · exact extractJson_of_block (toList_block p tag j s) hp (isTag_toList ht) hj hn

/-- Braces and quotes before the block. -/
theorem extractJson_fenced_braces :
    let p := "Use \x7b\"x\": 1\x7d or:\n"
    let j := "\x7b\"a\": \"b\"\x7d"
    '\x60' ∉ p.toList ∧ Json.read j = .ok (.obj [("a", .str "b")]) ∧ ¬ fence <:+: j.toList ∧
      extractJson (p ++ "\x60\x60\x60" ++ "json" ++ "\n" ++ j ++ "\n\x60\x60\x60" ++ "") =
        .ok (.obj [("a", .str "b")]) := by
  intro p j
  have hj : Json.read j = .ok (.obj [("a", .str "b")]) :=
    read_compact (j := .obj [("a", .str "b")]) ⟨by simp, trivial, trivial⟩
  have hp : Json.read "Use \x7b\"x\": 1\x7d or:\n" = .error .malformed := by cbv
  refine ⟨by decide, hj, by decide, (extractJson_fenced (by decide) (.inr rfl) hj (by decide)).2 ?_⟩
  intro digits hd
  cases hp.symm.trans hd

/-- A row of ones is one number. -/
theorem read_ones {n : Nat} (h : Decimal.maxDigits < n) :
    Json.read (String.ofList (List.replicate n '1')) = .error (.longNumber n) := by
  obtain ⟨k, rfl⟩ : ∃ k, n = k + 1 := ⟨n - 1, by omega⟩
  have hdigits : splitWhile isDigit ('1' :: List.replicate k '1' ++ []) = ('1' :: List.replicate k '1', []) := by
    refine splitWhile_of_all (fun c hc => ?_) (by simp)
    rw [← List.replicate_succ] at hc
    rw [List.eq_of_mem_replicate hc]
    rfl
  rw [List.append_nil] at hdigits
  have hwhole : readWhole ('1' :: List.replicate k '1') = ('1' :: List.replicate k '1', []) := hdigits
  have hmark : readMark '1' (List.replicate k '1') = some (.longNumber (k + 1), []) := by
    have hnumber : readNumber false ('1' :: List.replicate k '1') = some (.longNumber (k + 1), []) := by
      rw [readNumber, hwhole]
      simp [readFraction, readExponent, wholeMark, h]
    exact hnumber
  rw [read_eq, String.toList_ofList, List.replicate_succ, marks_of_readMark (by decide) hmark, marks]
  rfl

/-- A whole number that is too long before the block. -/
theorem fenced_not_found : ¬ ∀ (p tag j s : String) (members : List (String × Json)),
    '\x60' ∉ p.toList → (tag = "" ∨ tag = "json") → Json.read j = .ok (.obj members) →
    ¬ fence <:+: j.toList →
    extractJson (p ++ "\x60\x60\x60" ++ tag ++ "\n" ++ j ++ "\n\x60\x60\x60" ++ s) = .ok (.obj members) := by
  intro h
  have hp : Json.read (String.ofList (List.replicate 4301 '1')) = .error (.longNumber 4301) := read_ones (by decide)
  have hj : Json.read "\x7b\x7d" = .ok (.obj []) := read_compact (j := .obj []) ⟨List.nodup_nil, trivial⟩
  have hone : '\x60' ∉ (String.ofList (List.replicate 4301 '1')).toList := by
    rw [String.toList_ofList]
    exact fun hm => absurd (List.eq_of_mem_replicate hm) (by decide)
  have hfound := h (.ofList (List.replicate 4301 '1')) "json" "\x7b\x7d" "" [] hone (.inr rfl) hj (by decide)
  have hlost := extractJson_of_long_before (toList_block (.ofList (List.replicate 4301 '1')) "json" "\x7b\x7d" "")
    (.inr rfl) hp
  cases hfound.symm.trans hlost

end

end SpecTree.Response
