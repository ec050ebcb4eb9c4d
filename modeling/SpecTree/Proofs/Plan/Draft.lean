import SpecTree.Plan.Node
import SpecTree.Proofs.Plan.Shelf
import SpecTree.Proofs.Store.Found

/-!
# Drafts on their way

A node is compiled in steps, each of which may note that an artifact could not be written.

1. Removing what was there prunes the store and does nothing else (`invalidate_cases`, `invalidate_induct`).
2. `Draft.writeRest_eq` puts the last steps together: the context, the questions, the record.
   `Draft.finish_eq_ok` takes them apart again where they have ended well.
3. Where the path of a node is usable, preparing and finishing it do not fail (`exists_prepare`,
   `exists_finish`).
4. `Draft.finish_of_writes` follows the store through writes that do not fail. What each single write keeps to,
   preparing and finishing keep to (`prepare_induct`, `Draft.finish_induct`).
-/

namespace SpecTree.Plan

open Store

/-! ## Removing what was there -/

section Removing

variable {s t : Store}

theorem removeEntry_eq_ok {path : String} (h : removeEntry s path = .ok t) :
    ∃ place e, s.find false path = .ok (place, e) ∧ t = s.prune place := by
  obtain ⟨isDirectory, -, h⟩ := bind_eq_ok h
  split at h
  · obtain ⟨place, hf, ht⟩ := removeTree_eq_ok h
    exact ⟨place, _, hf, ht⟩
  · obtain ⟨place, e, hf, -, ht⟩ := removeFile_eq_ok h
    exact ⟨place, e, hf, ht⟩

/-- **Removing a node below the root takes one directory away**, with all that it holds, or nothing. -/
theorem invalidate_cases (s : Store) (directory : String) {node : String} (h : node ≠ rootName) :
    (invalidate s directory node).1 = s ∨
      ∃ place, s.find false (Path.assemble [directory, node]) = .ok (place, .directory) ∧
        (invalidate s directory node).1 = s.prune place := by
  unfold invalidate
  simp only [if_neg h]
  split
  · exact .inl rfl
  · exact .inl rfl
  · split
    · next hr => exact .inr (removeTree_eq_ok hr)
    · exact .inl rfl

variable {P : Store → Prop} (hprune : ∀ s place, P s → P (s.prune place))

include hprune in
theorem removeEntries_induct (h : P s) (paths : List String) : P (removeEntries s paths).1 := by
  induction paths generalizing s with
  | nil => exact h
  | cons path paths ih =>
    rw [removeEntries]
    split
    · next hr =>
      obtain ⟨place, -, -, rfl⟩ := removeEntry_eq_ok hr
      exact ih (hprune s place h)
    · exact h

include hprune in
/-- What pruning keeps to, removing a node keeps to. -/
theorem invalidate_induct (h : P s) (directory node : String) : P (invalidate s directory node).1 := by
  by_cases hnode : node = rootName
  · simp only [invalidate, if_pos hnode]
    split
    · exact h
    · exact h
    split
    · exact removeEntries_induct hprune h _
    · exact h
  · rcases invalidate_cases s directory hnode with he | ⟨place, -, he⟩
    · rw [he]
      exact h
    · rw [he]
      exact hprune s place h

end Removing

/-! ## Steps that have ended well -/

/-- The draft of a node that has not been compiled. -/
def Visit.draft (k : NodePolicy) (v : Visit) : Draft where
  visit := v
  difference := ⟨.notCompiled, k.digest v.spec, v.context.fingerprint k.digest, none⟩

namespace Draft

/-- The same draft, perhaps with more to tell. -/
structure Continues (d d' : Draft) : Prop where
  visit : d'.visit = d.visit
  difference : d'.difference = d.difference
  errors : d.errors <+: d'.errors

theorem Continues.refl (d : Draft) : d.Continues d := ⟨rfl, rfl, List.prefix_refl _⟩

theorem Continues.trans {d d' d'' : Draft} (h : d.Continues d') (k : d'.Continues d'') :
    d.Continues d'' :=
  ⟨k.visit.trans h.visit, k.difference.trans h.difference, h.errors.trans k.errors⟩

variable {d d' : Draft} {s t : Store} {directory stamp : String} {o : Outcome} {r : NodeResult} {lines : List Log.Line}

/-- Goes on after a write and notes its failure. -/
def keep (d : Draft) (what : String) (written : Store × Option FileError) :
    Except FileError (Store × Draft) := (d.note what written.2).map (written.1, ·)

/-- The context is written for a leaf. -/
def keepContext (d : Draft) (s : Store) (directory : String) (o : Outcome) :
    Except FileError (Store × Draft) :=
  if o.isLeaf then
    d.keep "context artifact" (writeContext s directory d.visit.path d.visit.context)
  else .ok (s, d)

/-- Questions are written if there are any. -/
def keepQuestions (d : Draft) (s : Store) (directory : String) (o : Outcome) :
    Except FileError (Store × Draft) :=
  let q := d.questionnaire o
  if q.questions.isEmpty && q.considerations.isEmpty then .ok (s, d)
  else d.keep "questions artifact" (writeQuestions s directory d.visit.path q)

/-- The record is written unless the provider failed. -/
def keepRecord (d : Draft) (stamp : String) (s : Store) (directory : String) (o : Outcome) :
    Except FileError (Store × Draft) :=
  if o.failure.isSome then .ok (s, d)
  else d.keep "meta artifact" (writeRecord s directory d.visit.path (d.record stamp o))

theorem keep_eq_ok {what : String} {written : Store × Option FileError}
    (h : d.keep what written = .ok (t, d')) : t = written.1 ∧ d'.visit = d.visit := by
  unfold keep note at h
  split at h
  · obtain ⟨rfl, rfl⟩ := Prod.mk.inj (Except.ok.inj h)
    exact ⟨rfl, rfl⟩
  · split at h
    · obtain ⟨rfl, rfl⟩ := Prod.mk.inj (Except.ok.inj h)
      exact ⟨rfl, rfl⟩
    · cases h

theorem visit_of_keepContext (h : d.keepContext s directory o = .ok (t, d')) : d'.visit = d.visit := by
  unfold keepContext at h
  split at h
  · exact (keep_eq_ok h).2
  · obtain ⟨-, rfl⟩ := Prod.mk.inj (Except.ok.inj h)
    rfl

theorem visit_of_keepQuestions (h : d.keepQuestions s directory o = .ok (t, d')) : d'.visit = d.visit := by
  unfold keepQuestions at h
  dsimp only at h
  split at h
  · obtain ⟨-, rfl⟩ := Prod.mk.inj (Except.ok.inj h)
    rfl
  · exact (keep_eq_ok h).2

theorem visit_of_keepRecord (h : d.keepRecord stamp s directory o = .ok (t, d')) : d'.visit = d.visit := by
  unfold keepRecord at h
  split at h
  · obtain ⟨-, rfl⟩ := Prod.mk.inj (Except.ok.inj h)
    rfl
  · exact (keep_eq_ok h).2

/-- **The last artifacts are written one after another.** Each step takes the path from the visit, which none of
them changes. -/
theorem writeRest_eq_bind (d : Draft) (stamp : String) (s : Store) (directory : String) (o : Outcome) :
    d.writeRest stamp s directory o = d.keepContext s directory o >>= fun x =>
      x.2.keepQuestions x.1 directory o >>= fun y => y.2.keepRecord stamp y.1 directory o := by
  unfold writeRest
  extract_lets path record questions
  have hrecord (y : Store × Draft) (hv : y.2.visit = d.visit) :
      record y = y.2.keepRecord stamp y.1 directory o := by
    unfold keepRecord
    rw [hv]
    dsimp only [record, path, keep]
  have hquestions (x : Store × Draft) (hv : x.2.visit = d.visit) :
      questions x = x.2.keepQuestions x.1 directory o >>= record := by
    unfold keepQuestions
    rw [hv]
    dsimp only [questions, path, keep]
    generalize writeQuestions x.1 directory d.visit.path (x.2.questionnaire o) = written
    split <;> rfl
  refine Eq.trans ?_ (bind_congr_ok fun x hx => ?_ : d.keepContext s directory o >>= questions = _)
  · unfold keepContext
    dsimp only [path, keep]
    generalize writeContext s directory d.visit.path d.visit.context = written
    split <;> rfl
  · have hv := visit_of_keepContext hx
    exact (hquestions x hv).trans (bind_congr_ok fun y hy => hrecord y ((visit_of_keepQuestions hy).trans hv))

theorem writeRest_eq {d₁ d₂ : Draft} {t₁ t₂ : Store} (h₁ : d.keepContext s directory o = .ok (t₁, d₁))
    (h₂ : d₁.keepQuestions t₁ directory o = .ok (t₂, d₂)) (stamp : String) :
    d.writeRest stamp s directory o = d₂.keepRecord stamp t₂ directory o := by
  rw [writeRest_eq_bind, h₁]
  show d₁.keepQuestions t₁ directory o >>= _ = _
  rw [h₂]
  rfl

/-- **A node that has been finished has come through all steps.** -/
theorem finish_eq_ok (h : d.finish stamp s directory o = .ok (t, r, lines)) :
    ∃ t₁ d₁ t₂ d₂ d₃, keepContext { d with errors := d.errors ++ o.errors d.visit.path } s directory o = .ok (t₁, d₁)
      ∧ d₁.keepQuestions t₁ directory o = .ok (t₂, d₂) ∧ d₂.keepRecord stamp t₂ directory o = .ok (t, d₃)
      ∧ r = d₃.result o ∧ lines = d₃.lines := by
  obtain ⟨⟨t₃, d₃⟩, hw, h⟩ := bind_eq_ok h
  obtain ⟨rfl, htold⟩ := Prod.mk.inj (Except.ok.inj h)
  obtain ⟨rfl, rfl⟩ := Prod.mk.inj htold
  rw [writeRest_eq_bind] at hw
  obtain ⟨⟨t₁, d₁⟩, hcontext, hw⟩ := bind_eq_ok hw
  obtain ⟨⟨t₂, d₂⟩, hquestions, hrecord⟩ := bind_eq_ok hw
  exact ⟨t₁, d₁, t₂, d₂, d₃, hcontext, hquestions, hrecord, rfl, rfl⟩

theorem keep_of_write {what : String} {written : Store × Option FileError}
    (h : written = (t, none)) : d.keep what written = .ok (t, d) := by
  rw [h]
  rfl

/-- **Where no write fails,** the stores that they leave lead from the first one to the last, and no more is told
than what the provider failed for. -/
theorem finish_of_writes (stamp : String) {t₁ t₂ t₃ : Store}
    (hc : if o.isLeaf then writeContext s directory d.visit.path d.visit.context = (t₁, none) else s = t₁)
    (hq : if (d.questionnaire o).questions.isEmpty && (d.questionnaire o).considerations.isEmpty then t₁ = t₂
      else writeQuestions t₁ directory d.visit.path (d.questionnaire o) = (t₂, none))
    (hr : if o.failure.isSome then t₂ = t₃
      else writeRecord t₂ directory d.visit.path (d.record stamp o) = (t₃, none)) :
    d.finish stamp s directory o
      = .ok (t₃, result { d with errors := d.errors ++ o.errors d.visit.path } o, d.lines) := by
  let d₀ : Draft := { d with errors := d.errors ++ o.errors d.visit.path }
  have h₁ : d₀.keepContext s directory o = .ok (t₁, d₀) := by
    unfold keepContext
    split at hc
    · next h => rw [if_pos h, keep_of_write hc]
    · next h => rw [if_neg h, hc]
  have h₂ : d₀.keepQuestions t₁ directory o = .ok (t₂, d₀) := by
    unfold keepQuestions
    split at hq
    · next h => exact (if_pos h).trans (by rw [hq])
    · next h => exact (if_neg h).trans (keep_of_write hq)
  have h₃ : d₀.keepRecord stamp t₂ directory o = .ok (t₃, d₀) := by
    unfold keepRecord
    split at hr
    · next h => rw [if_pos h, hr]
    · next h => exact (if_neg h).trans (keep_of_write hr)
  show (d₀.writeRest stamp s directory o).bind _ = _
  rw [writeRest_eq h₁ h₂, h₃]
  rfl

/-- A failure of the file system ends nothing. -/
theorem exists_note (d : Draft) (what : String) (failure : Option FileError)
    (h : ∀ e, failure = some e → e.isSystem = true) :
    ∃ d', d.note what failure = .ok d' ∧ d.Continues d' := by
  cases failure with
  | none => exact ⟨d, rfl, .refl d⟩
  | some e =>
    rw [note, if_pos (h e rfl)]
    exact ⟨_, rfl, rfl, rfl, List.prefix_append _ _⟩

theorem exists_keep (h0 : directory.contains '\x00' = false) {names : List String}
    (hn : ∀ n ∈ names, IsNodeName n) (a : Artifact) (s : Store) (text : String) (d : Draft) (what : String) :
    ∃ t d', d.keep what (s.writeDeep (a.path directory names) (.text text)) = .ok (t, d') ∧ d.Continues d' := by
  obtain ⟨d', hd, hc⟩ := d.exists_note what
    (s.writeDeep (a.path directory names) (.text text)).2
    fun e he => isSystem_of_writeDeep (a.noZero_path h0 hn) he
  exact ⟨_, d', by rw [keep, hd]; rfl, hc⟩

end Draft

/-! ## Preparing and finishing -/

section

variable {s t : Store} {directory stamp : String} {v : Visit} {d : Draft} {dif : Difference} {o : Outcome}
  {r : NodeResult} {lines : List Log.Line}

/-- **Preparing a node does not fail** where its path is usable. -/
theorem exists_prepare (h0 : directory.contains '\x00' = false) (hv : IsAncestry v.ancestry) (s : Store)
    (d : Difference) : ∃ t draft, prepare s directory v d = .ok (t, draft) ∧ draft.visit = v := by
  obtain ⟨names, hnames, hn⟩ := hv
  have hpath : planPath directory v.path = Artifact.spec.path directory names := by
    rw [Visit.path, hnames, Artifact.path, Artifact.suffix, String.append_empty]
  unfold prepare writeSpec
  dsimp only
  rw [hpath]
  generalize (invalidate s directory v.path).1 = t
  generalize (invalidate s directory v.path).2 = failure
  obtain ⟨u, draft, hd, hc⟩ := Draft.exists_keep h0 hn .spec t v.spec
    { visit := v
      difference := d
      errors := ((failure.map fun e =>
        ["Failed to invalidate previous artifacts for " ++ v.path ++ ": " ++ e.message])).getD [] }
    "spec artifact"
  exact ⟨u, draft, hd, hc.visit⟩

/-- A node that has been prepared has its spec written after the rest was removed, as far as that went. -/
theorem prepare_eq_ok (h : prepare s directory v dif = .ok (t, d)) :
    t = (writeSpec (invalidate s directory v.path).1 directory v.path v.spec).1 ∧ d.visit = v := by
  unfold prepare at h
  dsimp only at h
  generalize writeSpec (invalidate s directory v.path).1 directory v.path v.spec = written at h ⊢
  exact Draft.keep_eq_ok (show Draft.keep _ "spec artifact" written = .ok (t, d) from h)

theorem result_of_finish (h : d.finish stamp s directory o = .ok (t, r, lines)) :
    ∃ d' : Draft, r = d'.result o ∧ d'.visit = d.visit := by
  obtain ⟨t₁, d₁, t₂, d₂, d₃, hcontext, hquestions, hrecord, hr, -⟩ := Draft.finish_eq_ok h
  have hv₁ := Draft.visit_of_keepContext hcontext
  exact ⟨d₃, hr, ((Draft.visit_of_keepRecord hrecord).trans (Draft.visit_of_keepQuestions hquestions)).trans hv₁⟩

/-- **Finishing a node does not fail** where its path is usable; the result is that of the draft,
perhaps with more to tell. -/
theorem exists_finish (h0 : directory.contains '\x00' = false) (hd : IsAncestry d.visit.ancestry) (s : Store)
    (stamp : String) (o : Outcome) :
    ∃ t d' lines, d.finish stamp s directory o = .ok (t, Draft.result d' o, lines) ∧ d'.visit = d.visit := by
  let d₀ : Draft := { d with errors := d.errors ++ o.errors d.visit.path }
  obtain ⟨names, hnames, hn⟩ := hd
  have hpath : d₀.visit.path = nodePath (rootName :: names) := by rw [Visit.path, hnames]
  obtain ⟨t₁, d₁, h₁, hd₁⟩ : ∃ t d', d₀.keepContext s directory o = .ok (t, d') ∧ d₀.Continues d' := by
    unfold Draft.keepContext
    split
    · rw [hpath]
      exact Draft.exists_keep h0 hn .context s _ d₀ _
    · exact ⟨s, d₀, rfl, .refl d₀⟩
  obtain ⟨t₂, d₂, h₂, hd₂⟩ : ∃ t d', d₁.keepQuestions t₁ directory o = .ok (t, d') ∧ d₁.Continues d' := by
    unfold Draft.keepQuestions
    dsimp only
    split
    · exact ⟨t₁, d₁, rfl, .refl d₁⟩
    · rw [hd₁.visit, hpath]
      exact Draft.exists_keep h0 hn .questions t₁ _ d₁ _
  obtain ⟨t₃, d₃, h₃, hd₃⟩ : ∃ t d', d₂.keepRecord stamp t₂ directory o = .ok (t, d') ∧ d₂.Continues d' := by
    unfold Draft.keepRecord
    split
    · exact ⟨t₂, d₂, rfl, .refl d₂⟩
    · rw [hd₂.visit, hd₁.visit, hpath]
      exact Draft.exists_keep h0 hn .record t₂ _ d₂ _
  refine ⟨t₃, d₃, d₃.lines, ?_, ((hd₁.trans hd₂).trans hd₃).visit⟩
  show (d₀.writeRest stamp s directory o).bind _ = _
  rw [Draft.writeRest_eq h₁ h₂, h₃]
  rfl

end

/-! ## What the steps keep to -/

section

variable {P : Store → Prop} {s t : Store} {directory stamp : String} {v : Visit} {d : Draft} {dif : Difference}
  {o : Outcome} {r : NodeResult} {lines : List Log.Line}

theorem prepare_induct (hprune : ∀ s place, P s → P (s.prune place))
    (hspec : ∀ s, P s → P (writeSpec s directory v.path v.spec).1) (h : P s)
    (hp : prepare s directory v dif = .ok (t, d)) : P t := by
  rw [(prepare_eq_ok hp).1]
  exact hspec _ (invalidate_induct hprune h _ _)

/-- **What each write keeps to, finishing a node keeps to.** -/
theorem Draft.finish_induct (hcontext : ∀ s, P s → P (writeContext s directory d.visit.path d.visit.context).1)
    (hquestions : ∀ s q, P s → P (writeQuestions s directory d.visit.path q).1)
    (hrecord : ∀ s d', o.failure = none → P s → P (writeRecord s directory d.visit.path (record d' stamp o)).1)
    (h : P s) (hf : d.finish stamp s directory o = .ok (t, r, lines)) : P t := by
  obtain ⟨t₁, d₁, t₂, d₂, d₃, hc, hq, hr, -⟩ := finish_eq_ok hf
  have hv₁ := visit_of_keepContext hc
  have hv₂ := (visit_of_keepQuestions hq).trans hv₁
  have h₁ : P t₁ := by
    unfold keepContext at hc
    split at hc
    · rw [(keep_eq_ok hc).1]
      exact hcontext s h
    · obtain ⟨rfl, -⟩ := Prod.mk.inj (Except.ok.inj hc)
      exact h
  have h₂ : P t₂ := by
    unfold keepQuestions at hq
    dsimp only at hq
    rw [hv₁] at hq
    split at hq
    · obtain ⟨rfl, -⟩ := Prod.mk.inj (Except.ok.inj hq)
      exact h₁
    · rw [(keep_eq_ok hq).1]
      exact hquestions t₁ _ h₁
  unfold keepRecord at hr
  rw [hv₂] at hr
  split at hr
  · obtain ⟨rfl, -⟩ := Prod.mk.inj (Except.ok.inj hr)
    exact h₂
  · next hanswered =>
    rw [(keep_eq_ok hr).1]
    exact hrecord t₂ d₂ (Option.not_isSome_iff_eq_none.1 hanswered) h₂

end

end SpecTree.Plan
