import SpecTree.Plan.Artifacts
import SpecTree.Proofs.Json.Nulls
import SpecTree.Proofs.Store.Write

/-!
# Artifacts are read back

What was written as an artifact of a node is read as the same value, whatever store it was written
into: a context and a questionnaire without loss (though their nulls are not written), and a record
with a time stamp that is accepted (`artifacts_read_back`).
-/

namespace SpecTree.Plan

variable {s t : Store} {path : String}

/-! ## Texts -/

/-- What is written as indented JSON is read as the same value, its line ends unified or not. -/
theorem readStored?_text {n : Nat} {j : Json} (h : Json.Shallow n j) (hn : n ≤ Json.maxNesting) :
    Json.readStored? (String.ofList (Text.unifyLineEnds j.pretty.toList)) = some j := by
  rw [Json.unifyLineEnds_pretty h.plain, String.ofList_toList,
    Json.readStored?_pretty h.plain (Nat.le_trans h.height hn)]

/-! ## Files -/

/-- **What lies in a file as JSON is read**, if its value is one for the reader. -/
theorem readJson_of_find {α : Type} {value? : Json → Option α} {n : Nat} {j : Json} {x : α}
    {p : Place} (h : Json.Shallow n j) (hn : n ≤ Json.maxNesting) (hx : value? j = some x)
    (hf : s.find true path = .ok (p, .file (.text j.pretty))) :
    readJson value? s path = .ok (some x, []) := by
  have hfile : s.isFile path = .ok true := Store.ask_of_find hf _
  have hread : s.readText path = .ok (String.ofList (Text.unifyLineEnds j.pretty.toList)) := by
    rw [Store.readText, hf]
    rfl
  simp only [readJson, hfile, hread, readStored?_text h hn, Option.bind_some, hx, bind, Except.bind,
    if_true]
  rfl

theorem readJson_of_writeDeep {α : Type} {value? : Json → Option α} {n : Nat} {j : Json} {x : α}
    (h : Json.Shallow n j) (hn : n ≤ Json.maxNesting) (hx : value? j = some x)
    (hw : s.writeDeep path (.text j.pretty) = (t, none)) : readJson value? t path = .ok (some x, []) := by
  obtain ⟨p, hf⟩ := Store.find_of_writeDeep hw
  exact readJson_of_find h hn hx hf

/-- A context that lies in its file is read. -/
theorem readContext_of_find {directory node : String} {c : Context} {p : Place}
    (hf : s.find true (contextPath directory node) = .ok (p, .file (.text (contextText c)))) :
    readContext s directory node = .ok (some c, []) :=
  readJson_of_find c.shallow.dropNulls (by decide) c.ofJson?_dropNulls hf

/-- **Artifacts are read back as they were written.** -/
theorem artifacts_read_back (directory node : String) :
    (∀ (s t : Store) (c : Context), writeContext s directory node c = (t, none) →
      readContext t directory node = .ok (some c, []))
    ∧ (∀ (s t : Store) (q : Questionnaire), writeQuestions s directory node q = (t, none) →
      readQuestions t directory node = .ok (some q, []))
    ∧ ∀ (s t : Store) (r : Record), Stamp.isStamp r.compiledAt = true →
      writeRecord s directory node r = (t, none) →
      readRecord t directory node = .ok (some r, []) := by
  refine ⟨fun s t c hw => ?_, fun s t q hw => ?_, fun s t r hr hw => ?_⟩
  · exact readJson_of_writeDeep c.shallow.dropNulls (by decide) c.ofJson?_dropNulls hw
  · exact readJson_of_writeDeep q.shallow.dropNulls (by decide) q.ofJson?_dropNulls hw
  · have hx : Record.ofJson? r.toJson = some r := by rw [r.ofJson?_toJson, if_pos hr]
    exact readJson_of_writeDeep r.shallow (by decide) hx hw

/-- A file is written into a store that holds nothing, if its path is a name that a file may have. -/
theorem exists_writeDeep_empty (name : String) (hd : Path.parts (Path.directory name) = [])
    (hp : Path.parts name = [name]) (hn : Store.IsPlainName name) (h0 : '\x00' ∉ name.toList)
    (content : Content) : ∃ t, Store.empty.writeDeep name content = (t, none) := by
  have hs : name.utf8ByteSize < Store.pathLimit := Nat.lt_of_le_of_lt hn.1 (by decide)
  have hlocate : Store.empty.locate true name = .ok [name] := by
    refine Store.locate_eq_ok.2 ⟨Store.noZero_iff.2 h0, hs, ?_⟩
    rw [hp]
    exact Store.walk_last hn true fun _ h => by cases h
  have hmake : Store.empty.makeDirectories (Path.directory name) = (.empty, none) := by
    rw [Store.makeDirectories, hd]
    rfl
  refine ⟨Store.empty.set [name] (.file content), ?_⟩
  simp only [Store.writeDeep, hmake, Store.write_of_locate hlocate (fun h => by cases h) content]

/-- A context with marks of JSON, line ends and control characters in its texts, and an empty list
of names to forward. -/
def knottyContext : Context where
  interfaces := Table.ofList [("b\"\r\n", ⟨"", "\\u0000\x00"⟩), ("a", ⟨"root", "\u2028\x7b"⟩)]
  constraints := [⟨"null", "", true⟩]
  forwarding := some []

def knottyQuestionnaire : Questionnaire where
  module := "root"
  questions := [{ question := "\r", options := some [⟨"", none⟩, ⟨"a", some ""⟩], answer := some "\x0c" }]

def knottyRecord : Record where
  nodePath := "root"
  specHash := "\\"
  contextHash := "\t\r"
  isLeaf := true
  context := knottyContext
  compiledAt := "2024-02-29T23:59:59.5Z"

theorem knotty_artifacts_read_back :
    (∃ t, writeContext .empty "." rootName knottyContext = (t, none)
      ∧ readContext t "." rootName = .ok (some knottyContext, []))
    ∧ (∃ t, writeQuestions .empty "." rootName knottyQuestionnaire = (t, none)
      ∧ readQuestions t "." rootName = .ok (some knottyQuestionnaire, []))
    ∧ ∃ t, Stamp.isStamp knottyRecord.compiledAt = true
      ∧ writeRecord .empty "." rootName knottyRecord = (t, none)
      ∧ readRecord t "." rootName = .ok (some knottyRecord, []) := by
  obtain ⟨hc, hq, hr⟩ := artifacts_read_back "." rootName
  refine ⟨?_, ?_, ?_⟩
  · obtain ⟨t, ht⟩ := exists_writeDeep_empty (contextPath "." rootName) (by decide)
      (by decide) ⟨by decide, by decide⟩ (by decide) (.text (contextText knottyContext))
    exact ⟨t, ht, hc _ _ _ ht⟩
  · obtain ⟨t, ht⟩ := exists_writeDeep_empty (questionsPath "." rootName) (by decide)
      (by decide) ⟨by decide, by decide⟩ (by decide) (.text (questionsText knottyQuestionnaire))
    exact ⟨t, ht, hq _ _ _ ht⟩
  · obtain ⟨t, ht⟩ := exists_writeDeep_empty (metaPath "." rootName) (by decide)
      (by decide) ⟨by decide, by decide⟩ (by decide) (.text (recordText knottyRecord))
    have hr' : Stamp.isStamp knottyRecord.compiledAt = true := by decide
    exact ⟨t, hr', ht, hr _ _ _ hr' ht⟩

end SpecTree.Plan
