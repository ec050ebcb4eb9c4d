import Mathlib
import SpecTree.Plan.Child
import SpecTree.Proofs.Spec.Reading

/-!
# What unwrapping keeps

The spec of a child may be a module with the child's own name. The node of the child is then made of what stands
in this module, so that the header of the module goes.

1. `Statement.items` lists the labels of headers and the texts of statements in the order in which they stand,
   comments aside.
2. `unwrap_of_wraps`: what is lost are the labels of the one header. `childNode_keeps_iff` says when they are
   found on the node all the same.
-/

namespace SpecTree.Spec

/-! ## What statements say -/

/-- A label of a module, or what another statement says. -/
inductive Item where
  | tag (name : String)
  | pseudo (p : Pseudo)
  | param (name value : String)
  | inclusion (path : String)
  | constraint (text : String) (important : Bool)
  | prose (text : String) (important : Bool)
  deriving DecidableEq

/-- The tags and pseudo selectors of a header. -/
def Header.labels (h : Header) : List Item := h.tags.map .tag ++ h.pseudos.map .pseudo

namespace Statement

mutual

/-- What a statement says, at any depth; comments say nothing. -/
def items : Statement → List Item
  | module header children _ => header.labels ++ itemsAll children
  | prose text important _ => [.prose text important]
  | constraint text important _ => [.constraint text important]
  | inclusion path _ => [.inclusion path]
  | param name value _ => [.param name value]
  | comment _ _ => []

def itemsAll : List Statement → List Item
  | [] => []
  | s :: rest => s.items ++ itemsAll rest

end

theorem itemsAll_append (before after : List Statement) :
    itemsAll (before ++ after) = itemsAll before ++ itemsAll after := by
  induction before with
  | nil => rfl
  | cons s before ih => rw [List.cons_append, itemsAll, ih, itemsAll, List.append_assoc]

end Statement

end SpecTree.Spec

namespace SpecTree.Plan

open Spec Statement

/-! ## Wrapped statements -/

section

variable {name : String} {statements body : List Statement} {header : Header} {tags : List String}

theorem itemsAll_comments (h : ∀ s ∈ statements, isComment s = true) : itemsAll statements = [] := by
  induction statements with
  | nil => rfl
  | cons s rest ih =>
    obtain ⟨hs, hrest⟩ := List.forall_mem_cons.1 h
    cases s with
    | comment text span => rw [itemsAll, ih hrest]; rfl
    | _ => cases hs

/-- The statements are one module with the name and without a combinator, and comments around it. -/
structure Wraps (name : String) (statements : List Statement) (header : Header) (body : List Statement) : Prop where
  name_eq : header.name = name
  combinator_eq : header.combinator = none
  around : ∃ before span after, statements = before ++ .module header body span :: after ∧
    ∀ s ∈ before ++ after, isComment s = true

theorem filter_eq_singleton_iff {m : Statement} (hm : isComment m = false) :
    statements.filter (!isComment ·) = [m] ↔
      ∃ before after, statements = before ++ m :: after ∧ ∀ s ∈ before ++ after, isComment s = true := by
  rw [List.filter_eq_cons_iff]
  simp [List.filter_eq_nil_iff, hm, or_imp, forall_and]

theorem itemsAll_of_wraps (h : Wraps name statements header body) :
    itemsAll statements = header.labels ++ itemsAll body := by
  obtain ⟨before, span, after, rfl, hc⟩ := h.around
  obtain ⟨hbefore, hafter⟩ := List.forall_mem_append.1 hc
  rw [itemsAll_append, itemsAll_comments hbefore, itemsAll, itemsAll_comments hafter, items, List.append_nil,
    List.nil_append]

theorem unwrap_of_wraps (h : Wraps name statements header body) : unwrap name statements = body := by
  obtain ⟨before, span, after, hs, hc⟩ := h.around
  have hfilter : statements.filter (!isComment ·) = [.module header body span] :=
    (filter_eq_singleton_iff rfl).2 ⟨before, after, hs, hc⟩
  rw [unwrap, hfilter]
  simp [h.name_eq, h.combinator_eq]

theorem unwrap_of_not_wraps (h : ∀ header body, ¬ Wraps name statements header body) :
    unwrap name statements = statements := by
  unfold unwrap
  split
  · next header body span hfilter =>
    rw [if_neg]
    intro hw
    obtain ⟨hn, hk⟩ := Bool.and_eq_true_iff.1 hw
    obtain ⟨before, after, hs, hc⟩ := (filter_eq_singleton_iff rfl).1 hfilter
    exact h header body ⟨of_decide_eq_true hn, Option.isNone_iff_eq_none.1 hk, before, span, after, hs, hc⟩
  · rfl

/-- The labels of a header are found among tags if there are no pseudo selectors among them. -/
theorem labels_sublist_iff :
    header.labels.Sublist (tags.map .tag) ↔ header.pseudos = [] ∧ header.tags.Sublist tags := by
  constructor
  · intro h
    have hp : header.pseudos = [] := by
      refine List.eq_nil_iff_forall_not_mem.2 fun p hp => ?_
      have hm : Item.pseudo p ∈ tags.map .tag :=
        h.subset (List.mem_append_right _ (List.mem_map_of_mem hp))
      simp at hm
    rw [Header.labels, hp, List.map_nil, List.append_nil] at h
    obtain ⟨found, hfound, he⟩ := List.sublist_map_iff.1 h
    have hinj : Function.Injective Item.tag := fun _ _ => Item.tag.inj
    exact ⟨hp, List.map_injective_iff.2 hinj he ▸ hfound⟩
  · rintro ⟨hp, ht⟩
    rw [Header.labels, hp, List.map_nil, List.append_nil]
    exact ht.map _

end

/-! ## The node of a child -/

section

variable {child : ChildSpec} {name path : String} {header : Header} {body : List Statement}

/-- The statements of a child's spec, as they are parsed. -/
def parsedSpec (child : ChildSpec) (path : String) : List Statement :=
  (parseSource ("<" ++ path ++ ">") child.spec).document.children

/-- Nothing is wrong with a child's spec, warnings aside. -/
def ParsesClean (child : ChildSpec) (path : String) : Prop :=
  ∀ d ∈ (parseSource ("<" ++ path ++ ">") child.spec).problems, d.isError = false

theorem childNode_eq (h : ParsesClean child path) : childNode child name path =
    .module { name, tags := child.tags } (unwrap child.name (parsedSpec child path))
      (Span.empty ("<" ++ path ++ ">")) := by
  have hclean : (parseSource ("<" ++ path ++ ">") child.spec).problems.any Diagnostic.isError = false := by
    rw [List.any_eq_false]
    exact fun d hd => by rw [h d hd]; exact Bool.false_ne_true
  unfold childNode childStatements
  dsimp only
  rw [hclean]
  rfl

/-- The labels of a header that goes have to be among the tags that the child is given. -/
theorem kept_iff_of_wraps (h : ParsesClean child path) (hw : Wraps child.name (parsedSpec child path) header body) :
    (itemsAll (parsedSpec child path)).Sublist (childNode child name path).items ↔
      header.pseudos = [] ∧ header.tags.Sublist child.tags := by
  rw [childNode_eq h, items, unwrap_of_wraps hw, itemsAll_of_wraps hw, List.append_sublist_append_right,
    ← labels_sublist_iff, Header.labels, Header.labels, List.map_nil, List.append_nil]

/-- **All that a child's spec says is on its node**, in the same order, but for the labels of a header that stands
for the child itself. These are lost unless they are tags that the child is given besides. -/
theorem childNode_keeps_iff (h : ParsesClean child path) (name : String) :
    (∀ header body, Wraps child.name (parsedSpec child path) header body →
      (childNode child name path).children = body ∧
        itemsAll (parsedSpec child path) = header.labels ++ itemsAll body) ∧
    ((∀ header body, ¬ Wraps child.name (parsedSpec child path) header body) →
      (childNode child name path).children = parsedSpec child path) ∧
    ((itemsAll (parsedSpec child path)).Sublist (childNode child name path).items ↔
      ∀ header body, Wraps child.name (parsedSpec child path) header body →
        header.pseudos = [] ∧ header.tags.Sublist child.tags) := by
  refine ⟨fun header body hw => ⟨?_, itemsAll_of_wraps hw⟩, fun hn => ?_, fun hk header body hw => ?_,
    fun hall => ?_⟩
  · rw [childNode_eq h]
    exact unwrap_of_wraps hw
  · rw [childNode_eq h]
    exact unwrap_of_not_wraps hn
  · exact (kept_iff_of_wraps h hw).1 hk
  · by_cases hw : ∃ header body, Wraps child.name (parsedSpec child path) header body
    · obtain ⟨header, body, hw⟩ := hw
      exact (kept_iff_of_wraps h hw).2 (hall header body hw)
    · rw [childNode_eq h, unwrap_of_not_wraps fun header body hw' => hw ⟨header, body, hw'⟩]
      exact List.sublist_append_right _ _

/-! ### A labelled header -/

def labelledSpec : String := "db.core\x7ba=1;\x7d"

def labelledTokens : List Token :=
  [⟨.identifier, "db", ⟨1, 1, 0⟩⟩, ⟨.dot, ".", ⟨1, 3, 2⟩⟩, ⟨.identifier, "core", ⟨1, 4, 3⟩⟩,
    ⟨.braceOpen, "\x7b", ⟨1, 8, 7⟩⟩, ⟨.identifier, "a", ⟨1, 9, 8⟩⟩, ⟨.equals, "=", ⟨1, 10, 9⟩⟩,
    ⟨.number, "1", ⟨1, 11, 10⟩⟩, ⟨.semicolon, ";", ⟨1, 12, 11⟩⟩, ⟨.braceClose, "\x7d", ⟨1, 13, 12⟩⟩,
    ⟨.eof, "", ⟨1, 14, 13⟩⟩]

/-- The module `db.core` around one parameter, as the spec of the child `db` with some tags. -/
def labelledChild (tags : List String) : ChildSpec := { name := "db", spec := labelledSpec, tags }

theorem parseSource_labelled :
    (parseSource "<db>" labelledSpec).document.children =
        [.module ⟨"db", ["core"], [], none⟩ [.param "a" "1" ⟨"<db>", ⟨1, 9, 8⟩, ⟨1, 13, 12⟩⟩]
          ⟨"<db>", ⟨1, 1, 0⟩, ⟨1, 14, 13⟩⟩] ∧
      (parseSource "<db>" labelledSpec).problems = [] := by
  have hr : readStatement "<db>" (labelledTokens.drop 4) =
      ⟨some (.param "a" "1" ⟨"<db>", ⟨1, 9, 8⟩, ⟨1, 13, 12⟩⟩), labelledTokens.drop 8, []⟩ := by cbv
  have inside : Reads "<db>" true (labelledTokens.drop 8) [] (labelledTokens.drop 8) [] :=
    .done rfl (.inr ⟨rfl, rfl⟩)
  have there : Reads "<db>" false (closeBrace "<db>" (labelledTokens.drop 8)).rest [] (labelledTokens.drop 9) [] :=
    .done rfl (.inl rfl)
  have inside := Reads.statement (show skipLines (labelledTokens.drop 4) = _ from rfl) (by cbv) (by decide)
    hr inside
  have run := Reads.module (show skipLines labelledTokens = _ from rfl) (by cbv) inside there
  exact run.parseSource_eq (show tokenize labelledSpec = ⟨labelledTokens, []⟩ by cbv)

theorem parsesClean_labelled (tags : List String) : ParsesClean (labelledChild tags) "db" := by
  intro d hd
  rw [labelledChild, show "<" ++ "db" ++ ">" = "<db>" from rfl, parseSource_labelled.2] at hd
  cases hd

theorem parsedSpec_labelled (tags : List String) : parsedSpec (labelledChild tags) "db" =
    [.module ⟨"db", ["core"], [], none⟩ [.param "a" "1" ⟨"<db>", ⟨1, 9, 8⟩, ⟨1, 13, 12⟩⟩]
      ⟨"<db>", ⟨1, 1, 0⟩, ⟨1, 14, 13⟩⟩] := by
  rw [parsedSpec, labelledChild, show "<" ++ "db" ++ ">" = "<db>" from rfl]
  exact parseSource_labelled.1

theorem wraps_labelled (tags : List String) :
    Wraps (labelledChild tags).name (parsedSpec (labelledChild tags) "db") ⟨"db", ["core"], [], none⟩
      [.param "a" "1" ⟨"<db>", ⟨1, 9, 8⟩, ⟨1, 13, 12⟩⟩] where
  name_eq := rfl
  combinator_eq := rfl
  around := ⟨[], ⟨"<db>", ⟨1, 1, 0⟩, ⟨1, 14, 13⟩⟩, [], parsedSpec_labelled tags, by simp⟩

/-- The label of the header is among the tags that the child is given. -/
theorem childNode_keeps_iff_labelled :
    ParsesClean (labelledChild ["core"]) "db" ∧
      (childNode (labelledChild ["core"]) "db" "db").children = [.param "a" "1" ⟨"<db>", ⟨1, 9, 8⟩, ⟨1, 13, 12⟩⟩] ∧
      (itemsAll (parsedSpec (labelledChild ["core"]) "db")).Sublist
        (childNode (labelledChild ["core"]) "db" "db").items := by
  obtain ⟨hwrapped, -, hkept⟩ := childNode_keeps_iff (parsesClean_labelled ["core"]) "db"
  refine ⟨parsesClean_labelled _, (hwrapped _ _ (wraps_labelled _)).1, hkept.2 fun header body hw => ?_⟩
  obtain ⟨before, span, after, he, -⟩ := hw.around
  rw [parsedSpec_labelled] at he
  cases before with
  | nil =>
    cases he
    exact ⟨rfl, .refl _⟩
  | cons s before => simp at he

/-- The label of a header that stands for the child is lost when the child is given no tags. -/
theorem label_not_kept : ¬ ∀ (child : ChildSpec) (name path : String), ParsesClean child path →
    (itemsAll (parsedSpec child path)).Sublist (childNode child name path).items := by
  intro h
  have hkept := h (labelledChild []) "db" "db" (parsesClean_labelled [])
  have := ((kept_iff_of_wraps (parsesClean_labelled []) (wraps_labelled [])).1 hkept).2
  revert this
  decide

end

end SpecTree.Plan
