/-
Handling one path, on any tree.

Nothing is asked of the tree here: it may hold links, loops of links, and
anything in the place of a temporary file. What a batch does about a path
is told by the calls that it makes. It skips the path or not (`concerns`);
if not, it reads a text (`revise_of_error`, `revise_of_text`), runs the
pass on it, and overwrites the file or leaves it (`run_apply_write`).

# Failures

Whatever goes wrong on the way, reading, decoding, a directive of the
profile, or one of the calls that overwrite a file, comes out as one kind
of failure, which names the path (`error_of_process`, `error_of_apply`).
That is the one kind that a visit counts instead of failing itself, so a
visit does not fail (`run_visit`).
-/
import TaggedSource.Batch
import TaggedSource.Proofs.Action

namespace TaggedSource

-- ==================================================== what handling gives

/-- How handling a path can end: with nothing to do, with a file that went
through the pass and maybe changed, or with a failure. -/
abbrev Handled := Except Failure (Option Bool)

namespace Handled

def isProcessed : Handled → Bool
  | .ok (some _) => true
  | _ => false

def isChanged : Handled → Bool
  | .ok (some changed) => changed
  | _ => false

def isFailed : Handled → Bool
  | .error _ => true
  | _ => false

/-- How a visit counts what handling gives. -/
def count (tally : Tally) : Handled → Tally
  | .ok none => tally
  | .ok (some changed) => tally.count changed
  | .error _ => tally.countFailure

/-- What handling gives is counted in three ways at once. -/
theorem count_eq (tally : Tally) (handled : Handled) :
    handled.count tally =
      { processed := tally.processed + if handled.isProcessed then 1 else 0
        changed := tally.changed + if handled.isChanged then 1 else 0
        failed := tally.failed + if handled.isFailed then 1 else 0 } := by
  cases handled with
  | error cause => rfl
  | ok handled =>
      cases handled with
      | none => rfl
      | some changed => cases changed <;> rfl

theorem isProcessed_of_isChanged {handled : Handled} (h : handled.isChanged = true) :
    handled.isProcessed = true := by
  cases handled with
  | error cause => cases h
  | ok handled =>
      cases handled with
      | none => cases h
      | some changed => rfl

theorem xor_eq_add (handled : Handled) :
    (if handled.isProcessed ^^ handled.isFailed then 1 else 0)
      = (if handled.isProcessed then 1 else 0) + if handled.isFailed then 1 else 0 := by
  cases handled with
  | error cause => rfl
  | ok handled => cases handled <;> rfl

end Handled

/-- A path reads as a text exactly if its bytes are one. -/
theorem FileTree.readSource_eq_ok_iff {tree : FileTree} {path t : Text} :
    tree.readSource path = .ok t ↔
      ∃ bytes, tree.readBytes path = .ok bytes ∧ Utf8.decode bytes = .ok t := by
  rw [readSource]
  cases tree.readBytes path with
  | error fault => simp
  | ok bytes =>
      simp only [Except.ok.injEq, exists_eq_left']
      cases Utf8.decode bytes with
      | error flaw => exact iff_of_false nofun nofun
      | ok u =>
          constructor
          · intro h
            cases h
            rfl
          · intro h
            cases h
            rfl

namespace Batch

variable {batch : Batch}

-- =============================================================== revising

section
variable {path : Text} {w : Workspace}

/-- Where there is no text, nothing is drawn. -/
theorem revise_of_error {cause : Failure} (hread : w.tree.readSource path = .error cause) :
    (batch.revise path).run w = ⟨.error cause, [], w⟩ := by
  rw [revise, Action.run_bind, Action.run_get, Action.goOn_ok, Action.run_bind,
    Action.run_ofExcept, hread]
  rfl

/-- Where there is a text, the pass runs on it, and on the word source. -/
theorem revise_of_text {old : Text} (hread : w.tree.readSource path = .ok old) :
    let o := (batch.pass.run batch.profile old).run w.source
    (batch.revise path).run w
      = ⟨o.result.map fun new => if new = old then .unchanged else .write new, o.log,
          ⟨w.tree, o.state⟩⟩ := by
  rw [revise, Action.run_bind, Action.run_get, Action.goOn_ok, Action.run_bind,
    Action.run_ofExcept, hread, Action.goOn_ok, Action.run_bind, Action.goOn_pure]
  rfl

private theorem tree_revise : ((batch.revise path).run w).state.tree = w.tree := by
  cases hread : w.tree.readSource path with
  | error cause => rw [revise_of_error hread]
  | ok old => rw [revise_of_text hread]

-- ============================================================= processing

variable (batch) in
/-- Whether a path is not skipped: it leads to no directory, it is not
ignored, and the pass changes files with its name. -/
def concerns (tree : FileTree) (path : Text) : Bool :=
  !tree.isDirectory path && !batch.ignored.ignores batch.root path && batch.takes path

theorem concerns_of {tree : FileTree} (hdirectory : tree.isDirectory path = false)
    (hignored : batch.ignored.ignores batch.root path = false) (htakes : batch.takes path = true) :
    batch.concerns tree path = true := by
  rw [concerns, hdirectory, hignored, htakes]
  rfl

/-- A path that is not skipped is revised, and a failure names it. -/
theorem process_of_concerns (h : batch.concerns w.tree path = true) :
    let o := (batch.revise path).run w
    (batch.process path).run w
      = ⟨(o.result.mapError (.processing path)).map some, .processing path :: o.log, o.state⟩ := by
  intro o
  simp only [concerns, Bool.and_eq_true, Bool.not_eq_true'] at h
  obtain ⟨⟨hdirectory, hignored⟩, htakes⟩ := h
  rw [process, Action.run_bind, Action.run_get, Action.goOn_ok]
  simp only [hdirectory, hignored, htakes, Bool.false_eq_true, if_false, if_true, List.nil_append]
  rw [Action.run_bind, Action.run_log, Action.goOn_ok, Action.run_bind, Action.goOn_pure]
  rfl

/-- A path that is skipped leaves all as it is. -/
theorem process_of_not_concerns (h : batch.concerns w.tree path = false) :
    ∃ events, (batch.process path).run w = ⟨.ok none, events, w⟩ := by
  rw [process, Action.run_bind, Action.run_get, Action.goOn_ok]
  simp only [List.nil_append]
  cases hdirectory : w.tree.isDirectory path with
  | true => exact ⟨_, rfl⟩
  | false =>
      cases hignored : batch.ignored.ignores batch.root path with
      | true => exact ⟨_, rfl⟩
      | false =>
          have htakes : batch.takes path = false := by
            simpa [concerns, hdirectory, hignored] using h
          rw [htakes]
          exact ⟨_, rfl⟩

/-- Processing looks at the tree and draws words, and that is all. -/
theorem tree_process : ((batch.process path).run w).state.tree = w.tree := by
  cases hconcerns : batch.concerns w.tree path with
  | true => rw [process_of_concerns hconcerns, tree_revise]
  | false =>
      obtain ⟨events, hprocess⟩ := process_of_not_concerns hconcerns
      rw [hprocess]

/-- A failure of processing names the path. -/
theorem error_of_process {cause : Failure}
    (h : ((batch.process path).run w).result = .error cause) :
    ∃ reason, cause = .processing path reason := by
  cases hconcerns : batch.concerns w.tree path with
  | true =>
      rw [process_of_concerns hconcerns] at h
      cases hrevise : ((batch.revise path).run w).result with
      | error reason =>
          rw [hrevise] at h
          cases h
          exact ⟨reason, rfl⟩
      | ok operation =>
          rw [hrevise] at h
          cases h
  | false =>
      obtain ⟨events, hprocess⟩ := process_of_not_concerns hconcerns
      rw [hprocess] at h
      cases h

end

-- =============================================================== applying

/-- A dry run tells what would change. -/
private theorem run_apply_dry (path : Text) (operation : Operation) (w : Workspace) :
    ∃ events, (apply true path operation).run w
      = ⟨.ok (operation ≠ .unchanged), events, w⟩ := by
  cases operation with
  | unchanged => exact ⟨[], rfl⟩
  | write content => exact ⟨[.wouldWrite path], rfl⟩

/-- A run overwrites the file, and a failure names the path. -/
private theorem run_apply_write (path content : Text) (w : Workspace) :
    let course := w.tree.overwrite path content
    ∃ events, (apply false path (.write content)).run w
      = ⟨(course.result.mapError (.processing path)).map fun _ => true, events,
          { w with tree := course.final }⟩ := by
  intro course
  have hoverwrite : (overwrite path content).run w
      = ⟨course.result, [], { w with tree := course.final }⟩ := rfl
  rw [apply, if_neg Bool.false_ne_true, Action.run_bind, Action.run_onFailure, hoverwrite]
  cases course.result with
  | ok u => exact ⟨[.wrote path], rfl⟩
  | error reason => exact ⟨[], rfl⟩

section
variable {path : Text} {w : Workspace}

/-- A failure of applying names the path. -/
theorem error_of_apply {dryRun : Bool} {operation : Operation} {cause : Failure}
    (h : ((apply dryRun path operation).run w).result = .error cause) :
    ∃ reason, cause = .processing path reason := by
  cases dryRun with
  | true =>
      obtain ⟨events, happly⟩ := run_apply_dry path operation w
      rw [happly] at h
      cases h
  | false =>
      cases operation with
      | unchanged => cases h
      | write content =>
          obtain ⟨events, happly⟩ := run_apply_write path content w
          rw [happly] at h
          cases hcourse : (w.tree.overwrite path content).result with
          | ok u =>
              rw [hcourse] at h
              cases h
          | error reason =>
              rw [hcourse] at h
              cases h
              exact ⟨reason, rfl⟩

-- =============================================================== handling

/-- A failure of handling names the path, whichever step it is from. -/
private theorem error_of_handle {dryRun : Bool} {cause : Failure}
    (h : ((batch.handle dryRun path).run w).result = .error cause) :
    ∃ reason, cause = .processing path reason := by
  rw [handle, Action.run_bind] at h
  cases hprocess : (batch.process path).run w with
  | mk result events w' =>
      rw [hprocess] at h
      cases result with
      | error reason =>
          cases h
          exact error_of_process (by rw [hprocess])
      | ok operation =>
          cases operation with
          | none => cases h
          | some operation =>
              rw [Action.goOn_ok] at h
              simp only [Action.run_bind, Action.goOn_pure] at h
              cases happly : ((apply dryRun path operation).run w').result with
              | error reason =>
                  rw [happly] at h
                  cases h
                  exact error_of_apply happly
              | ok changed =>
                  rw [happly] at h
                  cases h

end

theorem tree_handle_dry (path : Text) (w : Workspace) :
    ((batch.handle true path).run w).state.tree = w.tree := by
  have htree : ((batch.process path).run w).state.tree = w.tree := tree_process
  rw [handle, Action.run_bind]
  generalize (batch.process path).run w = o at htree ⊢
  obtain ⟨result, events, w'⟩ := o
  cases result with
  | error cause => exact htree
  | ok operation =>
      cases operation with
      | none => exact htree
      | some operation =>
          obtain ⟨events', happly⟩ := run_apply_dry path operation w'
          simp only [Action.goOn_ok, Action.run_bind, happly]
          exact htree

/-- There is something to be done with a path only if the pass takes it and
there is a text. -/
theorem of_process {path : Text} {w : Workspace} {operation : Operation}
    (h : ((batch.process path).run w).result = .ok (some operation)) :
    batch.takes path = true ∧ ∃ old, w.tree.readSource path = .ok old := by
  cases hconcerns : batch.concerns w.tree path with
  | false =>
      obtain ⟨events, hprocess⟩ := process_of_not_concerns hconcerns
      rw [hprocess] at h
      cases h
  | true =>
      refine ⟨(Bool.and_eq_true _ _ ▸ hconcerns).2, ?_⟩
      rw [process_of_concerns hconcerns] at h
      cases hread : w.tree.readSource path with
      | ok old => exact ⟨old, rfl⟩
      | error cause =>
          rw [revise_of_error hread] at h
          cases h

/-- What is skipped counts for nothing, and all is left as it is. -/
theorem run_handle_of_not_concerns {path : Text} {w : Workspace}
    (h : batch.concerns w.tree path = false) (dryRun : Bool) :
    ∃ events, (batch.handle dryRun path).run w = ⟨.ok none, events, w⟩ := by
  obtain ⟨events, hprocess⟩ := process_of_not_concerns h
  rw [handle, Action.run_bind, hprocess]
  exact ⟨_, rfl⟩

theorem state_handle_of_not_concerns {path : Text} {w : Workspace}
    (h : batch.concerns w.tree path = false) (dryRun : Bool) :
    ((batch.handle dryRun path).run w).state = w := by
  obtain ⟨events, hhandle⟩ := run_handle_of_not_concerns h dryRun
  rw [hhandle]

/-- A path without a text fails, and all is left as it is. -/
theorem run_handle_of_error {path : Text} {w : Workspace}
    (h : batch.concerns w.tree path = true) {cause : Failure}
    (hread : w.tree.readSource path = .error cause) (dryRun : Bool) :
    ∃ events, (batch.handle dryRun path).run w = ⟨.error (.processing path cause), events, w⟩ := by
  rw [handle, Action.run_bind, process_of_concerns h, revise_of_error hread]
  exact ⟨_, rfl⟩

/-- A path with a text that the pass changes is overwritten. -/
theorem run_handle_of_text {path : Text} {w : Workspace}
    (h : batch.concerns w.tree path = true) {old new : Text}
    (hread : w.tree.readSource path = .ok old)
    (hpass : ((batch.pass.run batch.profile old).run w.source).result = .ok new)
    (hnew : new ≠ old) :
    let course := w.tree.overwrite path new
    ∃ events source, (batch.handle false path).run w
      = ⟨(course.result.mapError (.processing path)).map fun _ => some true, events,
          ⟨course.final, source⟩⟩ := by
  have hprocess : ∃ events source, (batch.process path).run w
      = ⟨.ok (some (.write new)), events, ⟨w.tree, source⟩⟩ := by
    rw [process_of_concerns h, revise_of_text hread]
    simp only [hpass]
    rw [Except.map, if_neg hnew]
    exact ⟨_, _, rfl⟩
  obtain ⟨events, source, hprocess⟩ := hprocess
  obtain ⟨events', happly⟩ := run_apply_write path new ⟨w.tree, source⟩
  rw [handle, Action.run_bind, hprocess, Action.goOn_ok, Action.run_bind, happly]
  simp only
  cases (w.tree.overwrite path new).result with
  | error cause => exact ⟨_, _, rfl⟩
  | ok _ => exact ⟨_, _, rfl⟩

/-- Handling a path leaves the tree alone or overwrites the path, and then
the pass takes the path and a text was there. -/
theorem tree_handle (dryRun : Bool) (path : Text) (w : Workspace) :
    ((batch.handle dryRun path).run w).state.tree = w.tree ∨
      ∃ old content, batch.takes path = true ∧ w.tree.readSource path = .ok old ∧
        ((batch.handle dryRun path).run w).state.tree = (w.tree.overwrite path content).final := by
  have htree : ((batch.process path).run w).state.tree = w.tree := tree_process
  have hsome {operation : Operation} : ((batch.process path).run w).result = .ok (some operation) →
      batch.takes path = true ∧ ∃ old, w.tree.readSource path = .ok old := of_process
  rw [handle, Action.run_bind]
  generalize (batch.process path).run w = o at htree hsome ⊢
  obtain ⟨result, events, w'⟩ := o
  replace htree : w'.tree = w.tree := htree
  cases result with
  | error cause => exact .inl htree
  | ok operation =>
      cases operation with
      | none => exact .inl htree
      | some operation =>
          obtain ⟨htakes, old, hread⟩ := hsome rfl
          rw [Action.goOn_ok]
          simp only [Action.run_bind, Action.goOn_pure]
          cases dryRun with
          | true =>
              obtain ⟨events', happly⟩ := run_apply_dry path operation w'
              rw [happly]
              exact .inl htree
          | false =>
              cases operation with
              | unchanged => exact .inl htree
              | write content =>
                  obtain ⟨events', happly⟩ := run_apply_write path content w'
                  rw [happly, htree]
                  exact .inr ⟨old, content, htakes, hread, rfl⟩

/-- A visit counts what handling gives, whatever that is. -/
theorem run_visit (batch : Batch) (dryRun : Bool) (path : Text) (tally : Tally) (w : Workspace) :
    let o := (batch.handle dryRun path).run w
    ∃ events, (batch.visit dryRun path tally).run w
      = ⟨.ok (Handled.count tally o.result), events, o.state⟩ := by
  have herror (cause : Failure) (h : ((batch.handle dryRun path).run w).result = .error cause) :=
    error_of_handle h
  rw [visit, Action.run_bind, Action.run_attempt, Action.goOn_ok]
  generalize (batch.handle dryRun path).run w = o at herror ⊢
  obtain ⟨result, events, w'⟩ := o
  cases result with
  | ok handled => cases handled <;> exact ⟨_, rfl⟩
  | error cause =>
      -- the one kind of failure that is caught
      obtain ⟨reason, rfl⟩ := herror cause rfl
      exact ⟨_, rfl⟩

end Batch

end TaggedSource
