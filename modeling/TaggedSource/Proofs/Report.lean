/-
What a batch run reports of the files that it could not process.

The one event that says so is logged by a visit, when handling its entry
has failed; nothing that handling does logs it (`quiet_handle`). So the log
of a run names the entries whose fate was to fail, in the order in which
the run got to them (`failedPaths_run`). The run gets to one entry more
than it gets past, if there is one that it cannot get past: that entry is
visited before it is listed (`visited`).
-/
import TaggedSource.Proofs.BatchRun

namespace TaggedSource

-- ======================================================== quiet actions

/-- The paths of the files that a log says to have failed. -/
def failedPaths (log : List Log.Event) : List Text :=
  log.filterMap fun
    | .failed (.processing path _) => some path
    | _ => none

/-- The failures of two logs are those of one and then the other. -/
private theorem failedPaths_append (log more : List Log.Event) :
    failedPaths (log ++ more) = failedPaths log ++ failedPaths more :=
  List.filterMap_append

namespace Action

variable {σ τ α β : Type}

/-- An action that reports no failed file. -/
def Quiet (a : Action σ α) : Prop := ∀ s, failedPaths (a.run s).log = []

private theorem quiet_pure (x : α) : (pure x : Action σ α).Quiet := fun _ => rfl

private theorem quiet_get : (get : Action σ σ).Quiet := fun _ => rfl

private theorem quiet_ofExcept (r : Except Failure α) : (ofExcept r : Action σ α).Quiet := by
  intro s
  rw [run_ofExcept]
  rfl

private theorem quiet_log {events : List Log.Event} (h : failedPaths events = []) :
    (log events : Action σ Unit).Quiet := fun _ => h

/-- Two quiet actions are quiet one after the other. -/
theorem Quiet.bind {a : Action σ α} {f : α → Action σ β} (ha : a.Quiet) (hf : ∀ x, (f x).Quiet) :
    (a >>= f).Quiet := by
  intro s
  have hfirst := ha s
  rw [run_bind]
  generalize a.run s = o at hfirst ⊢
  obtain ⟨result, events, s'⟩ := o
  cases result with
  | error cause => exact hfirst
  | ok x =>
      rw [goOn_ok, failedPaths_append, hf x s']
      exact congrArg (· ++ []) hfirst

theorem Quiet.onPart {a : Action τ α} (h : a.Quiet) (part : σ → τ) (withPart : σ → τ → σ) :
    (a.onPart part withPart).Quiet := fun s => h (part s)

theorem Quiet.onFailure {a : Action σ α} (h : a.Quiet) (wrap : Failure → Failure) :
    (a.onFailure wrap).Quiet := h

end Action

/-- Settling rules reports no path, even when it fails. -/
private theorem quiet_settleAll (rules : List Rule) : (settleAll rules).Quiet := by
  induction rules with
  | nil => exact Action.quiet_pure []
  | cons rule rules ih =>
      refine .bind (fun s => ?_) fun settled => ih.bind fun others => Action.quiet_pure _
      rcases rule.settle_cases with ⟨flaw, -, hrun⟩ | ⟨length, -, -, -, hrun⟩ | ⟨-, -, -, hrun⟩ <;>
        rw [hrun] <;> rfl

private theorem quiet_pass (pass : Pass) (profile : Profile) (t : Text) :
    (pass.run profile t).Quiet := by
  intro s
  have hstrip : failedPaths (pass.stripEvents profile t) = [] := by
    unfold Pass.stripEvents failedPaths Stripped.events
    cases (strip (pass.features profile) t).balanced <;> simp
  rw [Pass.run_run, failedPaths_append, hstrip, quiet_settleAll]
  rfl

namespace Batch

variable {batch : Batch}

private theorem quiet_process (batch : Batch) (path : Text) : (batch.process path).Quiet := by
  have hrevise : (batch.revise path).Quiet :=
    .bind Action.quiet_get fun _ => .bind (Action.quiet_ofExcept _) fun old =>
      .bind ((quiet_pass batch.pass batch.profile old).onPart _ _) fun _ => Action.quiet_pure _
  refine .bind Action.quiet_get fun workspace => ?_
  split
  · exact Action.quiet_pure none
  · split
    · exact .bind (Action.quiet_log rfl) fun _ => Action.quiet_pure none
    · split
      · exact .bind (Action.quiet_log rfl) fun _ =>
          .bind (hrevise.onFailure _) fun _ => Action.quiet_pure _
      · exact Action.quiet_pure none

private theorem quiet_apply (dryRun : Bool) (path : Text) (operation : Operation) :
    (apply dryRun path operation).Quiet := by
  have hoverwrite (content : Text) : (overwrite path content).Quiet := fun _ => rfl
  cases operation with
  | unchanged => exact Action.quiet_pure false
  | write content =>
      cases dryRun with
      | true => exact .bind (Action.quiet_log rfl) fun _ => Action.quiet_pure true
      | false =>
          exact .bind ((hoverwrite content).onFailure _) fun _ =>
            .bind (Action.quiet_log rfl) fun _ => Action.quiet_pure true

/-- Handling a path reports nothing, so the one report comes from the visit. -/
private theorem quiet_handle (batch : Batch) (dryRun : Bool) (path : Text) :
    (batch.handle dryRun path).Quiet := by
  refine .bind (quiet_process batch path) fun operation => ?_
  cases operation with
  | none => exact Action.quiet_pure none
  | some operation => exact .bind (quiet_apply dryRun path operation) fun _ => Action.quiet_pure _

-- ============================================================== a visit

/-- A visit reports its entry if the fate of the entry is to fail. -/
theorem Grounded.failedPaths_visit {top names : Place} {tree : FileTree} {node : Node}
    (hground : batch.Grounded top tree) (hnames : names ≠ [])
    (hget : tree.get? (top ++ names) = some node) (dryRun : Bool) (source : WordSource)
    (tally : Tally) :
    failedPaths ((batch.visit dryRun (batch.pathTo names) tally).run ⟨tree, source⟩).log
      = if (batch.fateOf dryRun source names node).isFailed then [batch.pathTo names] else [] := by
  obtain ⟨hreports, -⟩ := hground.handle_run hnames hget dryRun source
  have hquiet := quiet_handle batch dryRun (batch.pathTo names) ⟨tree, source⟩
  rw [visit, Action.run_bind, Action.run_attempt, Action.goOn_ok, failedPaths_append, hquiet]
  generalize ((batch.handle dryRun (batch.pathTo names)).run ⟨tree, source⟩).result = result
    at hreports ⊢
  cases hfate : batch.fateOf dryRun source names node with
  | skipped | kept | rewritten _ =>
      rw [hfate] at hreports
      obtain rfl : result = _ := hreports
      rfl
  | unread | unwritten =>
      rw [hfate] at hreports
      obtain ⟨cause, rfl⟩ := hreports
      rfl

/-- The two ways in which an entry fails: there is no text, or none that the
pass can be run on; or the text that the pass gives cannot be written. -/
theorem fateOf_of_isFailed {dryRun : Bool} {source : WordSource} {names : Place} {node : Node}
    (h : (batch.fateOf dryRun source names node).isFailed = true) :
    batch.takesUp names node = true ∧
      ((batch.fateOf dryRun source names node = .unread ∧
        ∀ old, batch.textOf? names node = some old →
          ∃ cause, ((batch.pass.run batch.profile old).run source).result = .error cause) ∨
      (batch.fateOf dryRun source names node = .unwritten ∧
        dryRun = false ∧ batch.canWrite names = false ∧
        ∃ old new, batch.textOf? names node = some old ∧
          ((batch.pass.run batch.profile old).run source).result = .ok new ∧ new ≠ old)) := by
  unfold fateOf at h ⊢
  cases htakes : batch.takesUp names node with
  | false =>
      rw [htakes, if_neg Bool.false_ne_true] at h
      cases h
  | true =>
      refine ⟨rfl, ?_⟩
      rw [htakes, if_pos rfl] at h
      rw [if_pos rfl]
      cases htext : batch.textOf? names node with
      | none => exact .inl ⟨rfl, fun _ hsome => nomatch hsome⟩
      | some old =>
          simp only [htext] at h ⊢
          cases hresult : ((batch.pass.run batch.profile old).run source).result with
          | error cause =>
              refine .inl ⟨rfl, fun text hsome => ?_⟩
              cases hsome
              exact ⟨cause, hresult⟩
          | ok new =>
              simp only [hresult] at h ⊢
              by_cases hsame : new = old
              · rw [if_pos hsame] at h
                cases h
              · rw [if_neg hsame] at h ⊢
                cases hfit : dryRun || batch.canWrite names with
                | true =>
                    rw [hfit, if_pos rfl] at h
                    cases h
                | false =>
                    obtain ⟨hdry, hwrite⟩ := Bool.or_eq_false_iff.1 hfit
                    exact .inr ⟨rfl, hdry, hwrite, old, new, rfl, hresult, hsame⟩

-- ============================================================== the run

/-- The elements of a list up to the first at which to stop, that one
included. -/
def upTo {α : Type} (stops : α → Bool) : List α → List α
  | [] => []
  | a :: as => if stops a then [a] else a :: upTo stops as

theorem upTo_sublist {α : Type} (stops : α → Bool) (as : List α) : (upTo stops as).Sublist as := by
  induction as with
  | nil => exact .slnil
  | cons a as ih =>
      rw [upTo]
      split
      · exact (List.nil_sublist as).cons_cons a
      · exact ih.cons_cons a

variable (batch) in
/-- What a run visits, in order. -/
def visited (tree : FileTree) (top : Place) (recursive : Bool) : List (Place × Node) :=
  upTo (batch.blocks recursive) (tree.below top recursive)

variable (batch) in
/-- Those of some entries, visited one after the other, that fail. -/
def failing (dryRun : Bool) : WordSource → List (Place × Node) → List Place
  | _, [] => []
  | source, (names, node) :: entries =>
    (if (batch.fateOf dryRun source names node).isFailed then [names] else []) ++
      failing dryRun (batch.sourceAfter source names node) entries

/-- A tour reports those of its entries that fail. -/
theorem Grounded.failedPaths_tour {top : Place} {tree : FileTree}
    (hground : batch.Grounded top tree) {entries : List (Place × Node)}
    (hentries : ∀ entry ∈ entries, entry.1 ≠ [] ∧ tree.get? (top ++ entry.1) = some entry.2)
    (hdistinct : entries.Pairwise fun a b => a.1 ≠ b.1) (dryRun : Bool)
    (blocks : Place × Node → Bool) (source : WordSource) (tally : Tally) :
    failedPaths ((batch.tour dryRun blocks entries tally).run ⟨tree, source⟩).log
      = (batch.failing dryRun source (upTo blocks entries)).map batch.pathTo := by
  induction entries generalizing tree source tally with
  | nil => rfl
  | cons entry entries ih =>
      obtain ⟨names, node⟩ := entry
      obtain ⟨hnames, hget⟩ := hentries (names, node) (.head _)
      obtain ⟨hground', hentries'⟩ := hground.behind_first hentries hdistinct dryRun source
      have hfailed := hground.failedPaths_visit hnames hget dryRun source tally
      obtain ⟨events, hvisit⟩ := hground.visit_run hnames hget dryRun source tally
      rw [hvisit] at hfailed
      rw [tour_cons hvisit, upTo]
      cases blocks (names, node) with
      | true =>
          simp only [if_true, failing, List.append_nil]
          rw [hfailed]
          split <;> rfl
      | false =>
          simp only [Bool.false_eq_true, if_false, Action.goOn_ok, failedPaths_append, failing,
            List.map_append]
          rw [hfailed, ih hground' hentries' hdistinct.of_cons]
          split <;> rfl

/-- A run reports those of the visited entries that fail. -/
theorem Grounded.failedPaths_run {top : Place} {tree : FileTree}
    (hground : batch.Grounded top tree)
    (hlocate : tree.locate .target batch.root = .ok (.node top .directory))
    (recursive dryRun : Bool) (source : WordSource) :
    failedPaths ((batch.run ⟨recursive, dryRun⟩).run ⟨tree, source⟩).log
      = (batch.failing dryRun source (batch.visited tree top recursive)).map batch.pathTo := by
  have hentries (entry : Place × Node) (hmem : entry ∈ tree.below top recursive) :=
    get?_of_mem_below hground.sound hmem
  have htour := hground.failedPaths_tour hentries
    (List.pairwise_map.1 (FileTree.nodup_below hground.sound top recursive)) dryRun
    (batch.blocks recursive) source {}
  rw [← hground.walk_root (FileTree.accepts_of_locate hlocate).2.2] at htour
  have hlook : tree.lookAt .target batch.root = .ok .directory := by
    rw [FileTree.lookAt, hlocate]
  rw [visited, ← htour, run, Action.run_bind, Action.run_get, Action.goOn_ok, Action.run_bind]
  simp only [hlook, Except.mapError, Action.run_ofExcept, Action.goOn_ok, Node.isDirectory, if_true,
    Action.run_bind, FileTree.levels]
  -- the run logs its end behind the walk, if the walk comes to an end
  generalize (batch.walk dryRun _ batch.root {}).run ⟨tree, source⟩ = walked
  obtain ⟨result, events, w⟩ := walked
  cases result with
  | error cause => rfl
  | ok tally =>
      show failedPaths (events ++ [.done _ _ _ _]) = failedPaths events
      rw [failedPaths_append]
      exact List.append_nil _

/-- A run whose root is no directory reports nothing. -/
theorem failedPaths_run_of_not_directory {tree : FileTree}
    (hlook : tree.lookAt .target batch.root ≠ .ok .directory) (recursive dryRun : Bool)
    (source : WordSource) :
    failedPaths ((batch.run ⟨recursive, dryRun⟩).run ⟨tree, source⟩).log = [] := by
  rw [run, Action.run_bind, Action.run_get, Action.goOn_ok, Action.run_bind]
  cases hnode : tree.lookAt .target batch.root with
  | error fault => rfl
  | ok node =>
      cases node with
      | directory => exact absurd hnode hlook
      | file content mode => rfl
      | link target => rfl

end Batch

end TaggedSource
