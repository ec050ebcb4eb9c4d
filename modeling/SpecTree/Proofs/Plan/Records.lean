import SpecTree.Proofs.Plan.Aftermath
import SpecTree.Proofs.Plan.Artifacts

/-!
# Where records come from

All that compiling a node does to a store is to remove entries and to write artifacts of the outcome
(`carryOut_induct`).

1. After a failure no record is written: one that can be used was there before (`outlives_of_carryOut`).
2. In a store without links, what stands in the place of a record is one that a compilation has left, whatever nodes
   are compiled there one after another (`KeepsRecords.calls`). No other is found when a node is examined
   (`KeepsRecords.isKept`).
-/

namespace SpecTree.Plan

open SpecTree.Path Store

variable {s t : Store} {directory : String} {names : List String} {v : Visit} {d : Draft} {dif : Difference}
  {dif' : Difference} {o : Outcome} {r : NodeResult} {p : NodePolicy} {record : Record} {lines : List Log.Line}

/-! ## Effects on a store -/

/-- A record as a compilation leaves it. -/
def Record.IsKept (record : Record) : Prop := ∃ (d : Draft) (stamp : String) (o : Outcome), record = d.record stamp o

theorem Record.IsKept.isLeaf_eq (h : record.IsKept) : record.isLeaf = record.children.isEmpty := by
  obtain ⟨d, stamp, o, rfl⟩ := h
  rfl

/-- A text that the outcome of a node puts into an artifact. -/
def Outcome.Yields (o : Outcome) (v : Visit) : Artifact → String → Prop
  | .spec, text => text = v.spec
  | .context, text => text = contextText v.context
  | .questions, text => ∃ q : Questionnaire, text = questionsText q
  | .record, text => o.failure = none ∧ ∃ record : Record, record.IsKept ∧ text = recordText record

/-- **Compiling a node does no more to a store** than to remove entries and to write artifacts of the outcome. -/
theorem carryOut_induct {P : Store → Prop} (hprune : ∀ s place, P s → P (s.prune place))
    (hwrite : ∀ s (a : Artifact) text, P s → o.Yields v a text →
      P (s.writeDeep (a.pathOf directory v.path) (.text text)).1)
    (h : P s) (hc : carryOut p s directory v dif o = .ok (t, r)) : P t := by
  obtain ⟨⟨t₀, draft⟩, hprepare, hc⟩ := bind_eq_ok hc
  obtain ⟨⟨t', r', lines⟩, hfinish, hc⟩ := bind_eq_ok hc
  obtain ⟨rfl, rfl⟩ := Prod.mk.inj (Except.ok.inj hc)
  have h₀ : P t₀ := prepare_induct hprune (fun s h => hwrite s .spec _ h rfl) h hprepare
  obtain rfl := (prepare_eq_ok hprepare).2
  exact Draft.finish_induct (fun s h => hwrite s .context _ h rfl) (fun s q h => hwrite s .questions _ h ⟨q, rfl⟩)
    (fun s d' hanswered h => hwrite s .record _ h ⟨hanswered, _, ⟨d', _, _, rfl⟩, rfl⟩) h₀ hfinish

/-! ## Reading a record -/

theorem readRecord_of_find {place : Place} (hstamp : Stamp.isStamp record.compiledAt = true)
    (hf : s.find true (metaPath directory v.path) = .ok (place, fileOf (recordText record))) :
    readRecord s directory v.path = .ok (some record, []) := by
  have hx : Record.ofJson? record.toJson = some record := by rw [record.ofJson?_toJson, if_pos hstamp]
  exact readJson_of_find record.shallow (by decide) hx hf

/-- A record that is read is in a file. -/
theorem exists_find_of_readRecord {path : String} (hpath : metaPath directory v.path = path)
    (h : readRecord s directory v.path = .ok (some record, lines)) :
    ∃ place text, s.find true path = .ok (place, fileOf text)
      ∧ (Json.readStored? (String.ofList (Text.unifyLineEnds text.toList))).bind Record.ofJson? = some record := by
  unfold readRecord readJson at h
  rw [hpath] at h
  obtain ⟨isFile, -, h⟩ := bind_eq_ok h
  split at h
  · split at h
    · next text hread =>
      obtain ⟨⟨place, e⟩, hf, hread⟩ := bind_eq_ok hread
      dsimp only at hread
      split at hread
      · next content =>
        refine ⟨place, content, hf, ?_⟩
        rw [Except.ok.inj hread]
        split at h
        · next a ha =>
          obtain ⟨he, -⟩ := Prod.mk.inj (Except.ok.inj h)
          rw [ha, he]
        · cases h
      · cases hread
      · cases hread
    · split at h
      · cases h
      · cases h
  · cases h

theorem readRecord_of_examine (hx : examine p s directory v = .ok (dif, lines)) :
    (∃ told, readRecord s directory v.path = .ok (dif.previous, told))
      ∧ (dif.isStale = false → dif.previous ≠ none) := by
  obtain ⟨⟨previous, told⟩, hread, hx⟩ := bind_eq_ok hx
  cases previous with
  | none =>
    obtain ⟨rfl, -⟩ := Prod.mk.inj (Except.ok.inj hx)
    exact ⟨⟨told, hread⟩, nofun⟩
  | some found =>
    obtain ⟨reason, -, hx⟩ := bind_eq_ok hx
    obtain ⟨rfl, -⟩ := Prod.mk.inj (Except.ok.inj hx)
    exact ⟨⟨told, hread⟩, fun _ => Option.some_ne_none found⟩

/-- Other artifacts than records do not read as one. -/
theorem ofJson?_of_get?_eq_none {j : Json} (h : j.get? "node_path" = none) : Record.ofJson? j = none := by
  simp only [Record.ofJson?, Json.member?, h]
  rfl

theorem ofJson?_contextText (c : Context) :
    (Json.readStored? (String.ofList (Text.unifyLineEnds (contextText c).toList))).bind Record.ofJson? = none := by
  rw [contextText, readStored?_text c.shallow.dropNulls (by decide), Option.bind_some]
  refine ofJson?_of_get?_eq_none ?_
  cases hf : c.forwarding <;>
    simp [Context.toJson, hf, Json.dropNulls, Json.dropNullsMembers, Json.get?, List.lookup]

theorem ofJson?_questionsText (q : Questionnaire) :
    (Json.readStored? (String.ofList (Text.unifyLineEnds (questionsText q).toList))).bind Record.ofJson? = none := by
  rw [questionsText, readStored?_text q.shallow.dropNulls (by decide), Option.bind_some]
  refine ofJson?_of_get?_eq_none ?_
  simp [Questionnaire.toJson, Json.dropNulls, Json.dropNullsMembers, Json.get?, List.lookup]

/-! ## Records that were there before -/

/-- Where the path leads there is a file as it was before, unless the spec has been written there. -/
def Outlives (s t : Store) (path spec : String) : Prop :=
  ∃ place text, t.find true path = .ok (place, fileOf text)
    ∧ (s.entry? place = some (fileOf text) ∨ text = spec)

/-- A file that is there after a node has been compiled was there before, or is an artifact of the outcome. -/
theorem origin_of_carryOut (hc : carryOut p s directory v dif o = .ok (t, r)) {place : Place} {content : Content}
    (he : t.entry? place = some (.file content)) :
    s.entry? place = some (.file content) ∨ ∃ a text, o.Yields v a text ∧ content = .text text := by
  refine carryOut_induct
    (P := fun u => ∀ place content, u.entry? place = some (.file content) →
      s.entry? place = some (.file content) ∨ ∃ a text, o.Yields v a text ∧ content = .text text)
    (fun u place h q content he => h q content (entry?_of_prune he))
    (fun u a text h htext q content he => ?_) (fun _ _ he => .inl he) hc place content he
  rcases file_of_mem_writeDeep he with he | rfl
  · exact h q content he
  · exact .inr ⟨a, text, htext, rfl⟩

/-- **After a failure, a record that can be used was there before.** -/
theorem outlives_of_carryOut (hc : carryOut p s directory v dif o = .ok (t, r)) (hfailed : o.failure.isSome = true)
    (hx : examine p t directory v = .ok (dif', lines)) (hfresh : dif'.isStale = false) :
    Outlives s t (metaPath directory v.path) v.spec := by
  obtain ⟨⟨told, hread⟩, hprevious⟩ := readRecord_of_examine hx
  obtain ⟨record, hrecord⟩ := Option.ne_none_iff_exists'.1 (hprevious hfresh)
  rw [hrecord] at hread
  obtain ⟨place, text, hf, htext⟩ := exists_find_of_readRecord rfl hread
  refine ⟨place, text, hf, ?_⟩
  rcases origin_of_carryOut hc (find_eq_ok.1 hf).2 with he | ⟨a, text', hyields, hcontent⟩
  · exact .inl he
  obtain rfl := Content.text.inj hcontent
  cases a with
  | spec => exact .inr hyields
  | context =>
    obtain rfl := hyields
    rw [ofJson?_contextText] at htext
    cases htext
  | questions =>
    obtain ⟨q, rfl⟩ := hyields
    rw [ofJson?_questionsText] at htext
    cases htext
  | record =>
    rw [hyields.1] at hfailed
    cases hfailed

/-! ## Records in their places -/

/-- There are no links, and what stands in the place of a record is one as a compilation leaves it. -/
structure KeepsRecords (s : Store) (directory : String) : Prop where
  plain : s.Plain
  kept (names : List String) (hn : ∀ n ∈ names, IsNodeName n) (content : Content) :
    s.entry? (placeOf (Artifact.record.path directory names)) = some (.file content) →
      ∃ record : Record, record.IsKept ∧ content = .text (recordText record)

namespace KeepsRecords

theorem prune (h : KeepsRecords s directory) (place : Place) : KeepsRecords (s.prune place) directory where
  plain := plain_prune h.plain place
  kept names hn content he := h.kept names hn content (entry?_of_prune he)

theorem write (h : KeepsRecords s directory) (hn : ∀ n ∈ names, IsNodeName n) (a : Artifact) (text : String)
    (ha : a = .record → ∃ record : Record, record.IsKept ∧ text = recordText record) :
    KeepsRecords (s.writeDeep (a.path directory names) (.text text)).1 directory where
  plain := plain_writeDeep h.plain _ _
  kept names' hn' content he := by
    by_cases hp : placeOf (Artifact.record.path directory names') = placeOf (a.path directory names)
    · generalize hw : s.writeDeep (a.path directory names) (.text text) = written at he
      obtain ⟨t, _ | e⟩ := written
      · rw [(wrote_writeDeep h.plain hw).file, if_pos hp] at he
        by_cases hrecord : Artifact.record = a
        · obtain ⟨record, hkept, rfl⟩ := ha hrecord.symm
          exact ⟨record, hkept, he⟩
        · exact absurd hp (placeOf_artifact_ne hrecord directory hn' hn)
      · rw [(sameFiles_writeDeep h.plain hw).file] at he
        exact h.kept names' hn' content he
    · rw [file_of_writeDeep h.plain hp] at he
      exact h.kept names' hn' content he

/-- **One compilation keeps to it.** -/
theorem compileNode (h : KeepsRecords s directory) (h0 : directory.contains '\x00' = false)
    (hv : IsAncestry v.ancestry) {mayAsk : Bool} {provider : Request → Except Failure Expansion}
    (hc : Plan.compileNode p s directory v mayAsk provider = .ok (t, r)) : KeepsRecords t directory := by
  obtain ⟨⟨dif, lines⟩, hx, -⟩ := bind_eq_ok hc
  rcases compileNode_cases h0 hv hx mayAsk provider with ⟨record, -, hc'⟩ | ⟨-, -, hc'⟩ | ⟨t', d, -, -, hc', hcarry⟩
  · obtain ⟨rfl, -⟩ := Prod.mk.inj (Except.ok.inj (hc.symm.trans hc'))
    exact h
  · obtain ⟨rfl, -⟩ := Prod.mk.inj (Except.ok.inj (hc.symm.trans hc'))
    exact h
  · obtain ⟨rfl, -⟩ := Prod.mk.inj (Except.ok.inj (hc.symm.trans hc'))
    refine carryOut_induct (P := (KeepsRecords · directory)) (fun _ place h => h.prune place)
      (fun s a text h htext => ?_) h hcarry
    obtain ⟨names, hanc, hn⟩ := hv
    rw [Visit.path, hanc, a.pathOf_nodePath]
    refine h.write hn a text ?_
    rintro rfl
    exact htext.2

/-- **The record that is found is as a compilation leaves it.** -/
theorem isKept (h : KeepsRecords s directory) (hv : IsAncestry v.ancestry)
    (hx : examine p s directory v = .ok (dif, lines)) : ∀ record ∈ dif.previous, record.IsKept := by
  intro record hprevious
  obtain ⟨names, hanc, hn⟩ := hv
  obtain ⟨⟨told, hread⟩, -⟩ := readRecord_of_examine hx
  rw [Option.mem_def.1 hprevious] at hread
  obtain ⟨place, text, hf, htext⟩ := exists_find_of_readRecord
    (show metaPath directory v.path = Artifact.record.path directory names by rw [Visit.path, hanc]; rfl) hread
  obtain ⟨hl, he⟩ := find_eq_ok.1 hf
  rw [locate_eq_placeOf h.plain hl] at he
  obtain ⟨kept, hkept, hcontent⟩ := h.kept names hn _ he
  obtain rfl : text = recordText kept := Content.text.inj hcontent
  rw [unifyLineEnds_recordText, String.ofList_toList, record_of_recordText] at htext
  split at htext
  · exact Option.some.inj htext ▸ hkept
  · cases htext

end KeepsRecords

/-! ## Nodes one after another -/

theorem keepsRecords_empty (directory : String) : KeepsRecords .empty directory where
  plain := plain_of_entries nofun
  kept names hn content he := by
    rw [entry?_of_ne_nil _ (by rw [placeOf_artifact .record directory hn]; simp)] at he
    cases he

/-- A node that is compiled by itself. -/
structure Call where
  policy : NodePolicy
  visit : Visit
  mayAsk : Bool
  provider : Request → Except Failure Expansion

/-- Only examining the node can fail, which changes nothing. -/
def Call.run (directory : String) (s : Store) (x : Call) : Store :=
  match compileNode x.policy s directory x.visit x.mayAsk x.provider with
  | .ok (t, _) => t
  | .error _ => s

/-- **Whatever is compiled, records stay as compilations leave them.** -/
theorem KeepsRecords.calls (h : KeepsRecords s directory) (h0 : directory.contains '\x00' = false) {calls : List Call}
    (hv : ∀ x ∈ calls, IsAncestry x.visit.ancestry) : KeepsRecords (calls.foldl (Call.run directory) s) directory := by
  induction calls generalizing s with
  | nil => exact h
  | cons x calls ih =>
    obtain ⟨hx, hcalls⟩ := List.forall_mem_cons.1 hv
    refine ih ?_ hcalls
    unfold Call.run
    split
    · next hc => exact h.compileNode h0 hx hc
    · exact h

end SpecTree.Plan
