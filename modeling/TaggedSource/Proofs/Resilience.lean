/-
No file ends a run.

A tree may hold anything: links that lead nowhere or in a circle, bytes that
are no text, names too long for a temporary file, a directory where a
temporary file should go. Each of these fails one file, and the run goes on
(`no_file_ends_run`).
-/
import TaggedSource.Proofs.Independence
import TaggedSource.Proofs.Journey

namespace TaggedSource

namespace Batch

variable {batch : Batch} {dryRun : Bool}

/-- What is not skipped went through the pass or failed, and not both. -/
theorem concerns_eq_xor (batch : Batch) (dryRun : Bool) (stop : Waypoint) :
    batch.concerns stop.found.tree stop.path
      = ((batch.resultAt dryRun stop).isProcessed ^^ (batch.resultAt dryRun stop).isFailed) := by
  obtain ⟨path, w⟩ := stop
  rw [resultAt, handle, Action.run_bind]
  cases hconcerns : batch.concerns w.tree path with
  | false =>
      obtain ⟨events, hprocess⟩ := process_of_not_concerns hconcerns
      rw [hprocess]
      rfl
  | true =>
      rw [process_of_concerns hconcerns]
      cases (batch.revise path).run w with
      | mk result events w' =>
        cases result with
        | error cause => rfl
        | ok operation =>
            simp only [Except.mapError, Except.map, Action.goOn_ok, Action.run_bind,
              Action.goOn_pure]
            cases ((apply dryRun path operation).run w').result <;> rfl

/-- What is not skipped is counted as processed or as failed. -/
private theorem countP_concerns (stops : List Waypoint) :
    (stops.countP fun stop => (batch.resultAt dryRun stop).isProcessed) +
        (stops.countP fun stop => (batch.resultAt dryRun stop).isFailed)
      = stops.countP fun stop => batch.concerns stop.found.tree stop.path := by
  induction stops with
  | nil => rfl
  | cons stop stops ih =>
      simp only [List.countP_cons, concerns_eq_xor batch dryRun stop, Handled.xor_eq_add, ← ih]
      omega

/-- No file ends a run. Processing a path and applying what comes of it fail
in no other way than by naming the path. So a run, of any batch on any tree,
fails exactly if it comes to a directory that cannot be listed; otherwise
what it gets to and does not skip is counted once, as processed or as
failed, and what changed is among what was processed. -/
theorem no_file_ends_run (batch : Batch) (options : BatchOptions) (w : Workspace) :
    (∀ path w' cause, ((batch.process path).run w').result = .error cause →
      ∃ reason, cause = .processing path reason) ∧
    (∀ path operation w' cause,
      ((apply options.dryRun path operation).run w').result = .error cause →
        ∃ reason, cause = .processing path reason) ∧
    let o := (batch.run options).run w
    let journey := batch.journey options w
    o.state = journey.workspace ∧
    (∀ cause, o.result = .error cause ↔ ∃ directory fault,
      journey.halt = some (directory, fault) ∧ cause = .walk directory fault) ∧
    (∀ directory fault, journey.halt = some (directory, fault) →
      o.state.tree.readDirectory directory = .error fault) ∧
    (∀ stop ∈ journey.stops, batch.concerns stop.found.tree stop.path
      = ((batch.resultAt options.dryRun stop).isProcessed
          ^^ (batch.resultAt options.dryRun stop).isFailed)) ∧
    ∀ tally, o.result = .ok tally →
      tally.processed
        = journey.stops.countP (fun stop => (batch.resultAt options.dryRun stop).isProcessed) ∧
      tally.failed
        = journey.stops.countP (fun stop => (batch.resultAt options.dryRun stop).isFailed) ∧
      tally.processed + tally.failed
        = journey.stops.countP (fun stop => batch.concerns stop.found.tree stop.path) ∧
      tally.changed ≤ tally.processed := by
  refine ⟨fun path w' cause h => error_of_process h, fun path operation w' cause h =>
    error_of_apply h, ?_⟩
  intro o journey
  obtain ⟨hstate, hresult⟩ : batch.Ends options.dryRun o journey := run_journey batch options w
  refine ⟨hstate, ?_, ?_, fun stop _ => concerns_eq_xor batch options.dryRun stop, ?_⟩
  · intro cause
    cases hhalt : journey.halt with
    | none =>
        rw [hhalt] at hresult
        rw [hresult]
        simp
    | some ended =>
        rw [hhalt] at hresult
        rw [hresult]
        constructor
        · intro heq
          exact ⟨ended.1, ended.2, rfl, (Except.error.inj heq).symm⟩
        · rintro ⟨directory, fault, heq, rfl⟩
          rw [Option.some.inj heq]
  · intro directory fault hhalt
    rw [hstate]
    exact readDirectory_of_halt hhalt
  · intro tally htally
    have hcounts : tally = batch.tallyOf options.dryRun journey.stops := by
      cases hhalt : journey.halt with
      | none =>
          rw [hhalt, htally] at hresult
          exact Except.ok.inj hresult
      | some ended =>
          rw [hhalt, htally] at hresult
          cases hresult
    rw [tallyOf_eq] at hcounts
    subst hcounts
    refine ⟨rfl, rfl, countP_concerns journey.stops, ?_⟩
    apply List.countP_mono_left
    intro stop _ hchanged
    exact Handled.isProcessed_of_isChanged hchanged

-- ============================================================ a rough tree

/-- A batch that puts one word for another. -/
def roughBatch : Batch where
  profile := { id := text "Rough", copyrightStrings := [⟨text "old", text "new"⟩] }
  pass := .copyright
  root := text "."
  ignored := .none

/-- A link to itself, bytes that are no text, a file that has a directory in
the place of its temporary file, and one that can be rewritten. -/
def roughTree : FileTree where
  home := [text "w"]
  entries :=
    [([text "w"], .directory),
      ([text "w", text "a.js"], .link (text "a.js")),
      ([text "w", text "b.js"], .file [0xFF] 420),
      ([text "w", text "c.js"], .file (Utf8.encode (text "old")) 420),
      ([text "w", text ".c.js.piranhito.tmp"], .directory),
      ([text "w", text "d.js"], .file (Utf8.encode (text "old")) 420)]

def roughWorkspace : Workspace := ⟨roughTree, WordSource.ofWords [] 0⟩

private theorem run_roughBatch (s : WordSource) :
    ((roughBatch.pass.run roughBatch.profile (text "old")).run s).result = .ok (text "new") := by
  rw [Pass.run_of_literal (by decide) (text "old") (.ofWords [] 0) s]
  decide +kernel

section
variable {journey : Journey} (h : journey.workspace.tree = roughTree) (name : Name)
  (hdirectory : roughTree.isDirectory (Path.join (text ".") name) = false)
  (htakes : roughBatch.takes (Path.join (text ".") name) = true)
include h hdirectory htakes

/-- What has no text fails, and the tree stays as it is. -/
private theorem stopBy_textless {cause : Failure}
    (hread : roughTree.readSource (Path.join (text ".") name) = .error cause) :
    let next := roughBatch.stopBy false (Path.join (text ".") name) journey
    next.workspace.tree = roughTree ∧
      roughBatch.tallyOf false next.stops
        = (roughBatch.tallyOf false journey.stops).countFailure := by
  rw [← h] at hread
  obtain ⟨events, hhandle⟩ :=
    run_handle_of_error (h ▸ concerns_of hdirectory rfl htakes) hread false
  refine ⟨?_, ?_⟩
  · rw [stopBy, hhandle, h]
  · rw [tallyOf_stopBy, resultAt, hhandle]
    rfl

/-- What has the text that the batch looks for is overwritten. -/
private theorem stopBy_rough
    (hread : roughTree.readBytes (Path.join (text ".") name) = .ok (Utf8.encode (text "old"))) :
    let course := roughTree.overwrite (Path.join (text ".") name) (text "new")
    let next := roughBatch.stopBy false (Path.join (text ".") name) journey
    next.workspace.tree = course.final ∧
      roughBatch.tallyOf false next.stops
        = Handled.count (roughBatch.tallyOf false journey.stops)
          ((course.result.mapError (.processing (Path.join (text ".") name))).map
            fun _ => some true) := by
  have hread : journey.workspace.tree.readSource (Path.join (text ".") name) = .ok (text "old") := by
    rw [h]
    exact FileTree.readSource_eq_ok_iff.2 ⟨_, hread, Utf8.decode_encode _⟩
  obtain ⟨events, source, hhandle⟩ := run_handle_of_text
    (h ▸ concerns_of hdirectory rfl htakes) hread (run_roughBatch journey.workspace.source)
    (by decide)
  rw [h] at hhandle
  refine ⟨?_, ?_⟩
  · rw [stopBy, hhandle]
  · rw [tallyOf_stopBy, resultAt, hhandle]

end

/-- The link leads to itself, forty times. -/
private theorem readSource_circle :
    roughTree.readSource (Path.join (text ".") (text "a.js")) = .error (.system .tooManyLinks) := by
  cbv

private theorem readSource_noText :
    roughTree.readSource (Path.join (text ".") (text "b.js"))
      = .error (.notText (text "./b.js") (.invalid 1 0)) := by
  cbv

/-- The directory is in the way of the temporary file. -/
private theorem overwrite_blocked :
    let course := roughTree.overwrite (Path.join (text ".") (text "c.js")) (text "new")
    course.final = roughTree ∧ course.result = .error (.system .isDirectory) := by cbv

private theorem overwrite_plain :
    (roughTree.overwrite (Path.join (text ".") (text "d.js")) (text "new")).result = .ok () := by cbv

private theorem readDirectory_roughTree : roughTree.readDirectory (text ".") =
    .ok [(text ".c.js.piranhito.tmp", .directory), (text "a.js", .link (text "a.js")),
      (text "b.js", .file [0xFF] 420), (text "c.js", .file (Utf8.encode (text "old")) 420),
      (text "d.js", .file (Utf8.encode (text "old")) 420)] := by cbv

private theorem readDirectory_inner :
    roughTree.readDirectory (Path.join (text ".") (text ".c.js.piranhito.tmp")) = .ok [] := by cbv

/-- The run gets to every entry, and three of the files fail. -/
private theorem journey_roughTree :
    let journey := roughBatch.journey ⟨true, false⟩ roughWorkspace
    journey.halt = none ∧
      journey.stops.map (·.path)
        = [text "./.c.js.piranhito.tmp", text "./a.js", text "./b.js", text "./c.js",
          text "./d.js"] ∧
      roughBatch.tallyOf false journey.stops = ⟨1, 1, 3⟩ := by
  have hlook : roughWorkspace.tree.lookAt .target roughBatch.root = .ok .directory := by cbv
  have hlevels : roughWorkspace.tree.levels true = 3 := by decide
  have hlist : roughWorkspace.tree.readDirectory roughBatch.root = .ok _ := readDirectory_roughTree
  -- the directory is skipped, two files have no text, one cannot be written
  let start : Journey := ⟨[], roughWorkspace, none⟩
  let one := roughBatch.stopBy false (text "./.c.js.piranhito.tmp") start
  let two := roughBatch.stopBy false (text "./a.js") one
  let three := roughBatch.stopBy false (text "./b.js") two
  let four := roughBatch.stopBy false (text "./c.js") three
  let five := roughBatch.stopBy false (text "./d.js") four
  have hskipped : roughBatch.concerns roughTree (text "./.c.js.piranhito.tmp") = false := by
    have htakes : roughBatch.takes (text "./.c.js.piranhito.tmp") = false := by decide
    rw [concerns, htakes, Bool.and_false]
  have hone : one.workspace.tree = roughTree ∧ roughBatch.tallyOf false one.stops = {} := by
    obtain ⟨events, hhandle⟩ := run_handle_of_not_concerns (w := roughWorkspace) hskipped false
    refine ⟨?_, ?_⟩
    · change ((roughBatch.handle false _).run roughWorkspace).state.tree = roughTree
      rw [hhandle]
      rfl
    · rw [tallyOf_stopBy, resultAt, hhandle]
      rfl
  have htwo := stopBy_textless hone.1 _ (by cbv) (by decide) readSource_circle
  have hthree := stopBy_textless htwo.1 _ (by cbv) (by decide) readSource_noText
  obtain ⟨hkept, hfails⟩ := overwrite_blocked
  have hfour := stopBy_rough hthree.1 (text "c.js") (by cbv) (by decide) (by cbv)
  have hfive := stopBy_rough (hfour.1.trans hkept) (text "d.js") (by cbv) (by decide) (by cbv)
  have hjourney : roughBatch.journey ⟨true, false⟩ roughWorkspace = five := by
    have hinner : one.workspace.tree.readDirectory (text "./.c.js.piranhito.tmp") = .ok [] := by
      rw [hone.1]
      exact readDirectory_inner
    have hthrough : roughBatch.travel false 2 (text "./.c.js.piranhito.tmp") one = one := by
      rw [travel, hinner]
      rfl
    rw [journey, hlook]
    simp only [hlevels, Node.isDirectory, if_true]
    rw [travel, hlist]
    simp only
    rw [List.foldl_cons, passBy_of_goes rfl, if_pos (by decide)]
    change List.foldl _ (roughBatch.travel false 2 (text "./.c.js.piranhito.tmp") one) _ = five
    rw [hthrough]
    rfl
  rw [hjourney]
  refine ⟨rfl, rfl, hfive.2.trans ?_⟩
  rw [overwrite_plain, hfour.2, hfails, hthree.2, htwo.2, hone.2]
  rfl

/-- Three of the files fail, the last is rewritten, and the directory does
not count. -/
theorem no_file_ends_run_roughTree :
    let journey := roughBatch.journey ⟨true, false⟩ roughWorkspace
    ((roughBatch.run ⟨true, false⟩).run roughWorkspace).result = .ok ⟨1, 1, 3⟩ ∧
      journey.halt = none ∧
      journey.stops.map (·.path)
        = [text "./.c.js.piranhito.tmp", text "./a.js", text "./b.js", text "./c.js",
          text "./d.js"] ∧
      journey.stops.countP (fun stop => roughBatch.concerns stop.found.tree stop.path) = 4 := by
  obtain ⟨hhalt, hpaths, htally⟩ := journey_roughTree
  obtain ⟨-, hresult⟩ := run_journey roughBatch ⟨true, false⟩ roughWorkspace
  rw [hhalt, htally] at hresult
  obtain ⟨-, -, -, -, -, -, hcounts⟩ := no_file_ends_run roughBatch ⟨true, false⟩ roughWorkspace
  obtain ⟨-, -, hconcerns, -⟩ := hcounts _ hresult
  exact ⟨hresult, hhalt, hpaths, hconcerns.symm⟩

end Batch

end TaggedSource
