/-
The journey of a run: where it gets to, on any tree.

On a tree with links or with temporary files a run can change what it will
find later, so where it gets to cannot be said beforehand. It is told as it
goes (`travel`): a directory is listed as it is when the run comes to it,
the run stops at each of its entries, and the next stop finds what handling
the last one has left. The one thing that ends a journey early is a
directory that cannot be listed.

# A run is its journey

No stop fails (`run_visit`), so a run does what its journey does
(`run_journey`): it ends in the same workspace, it fails exactly if a
directory could not be listed, and otherwise it gives the counts of its
stops. What every stop keeps, a journey keeps (`journey_keeps`).
-/
import TaggedSource.Proofs.BatchRun
import TaggedSource.Proofs.Handling

namespace TaggedSource

/-- A path that a run has got to, and the workspace that it found. -/
structure Waypoint where
  path : Text
  found : Workspace

/-- How far a run has come. -/
structure Journey where
  /-- Where it has been, in order. -/
  stops : List Waypoint
  /-- The workspace as it is now. -/
  workspace : Workspace
  /-- The directory that could not be listed, and why. -/
  halt : Option (Text × Fault)

namespace Batch

section
variable (batch : Batch) (dryRun : Bool)

-- ============================================================ the journey

/-- What handling the path of a stop gives. -/
def resultAt (stop : Waypoint) : Handled := ((batch.handle dryRun stop.path).run stop.found).result

/-- Stops at a path. -/
def stopBy (path : Text) (journey : Journey) : Journey :=
  { journey with
    stops := journey.stops ++ [⟨path, journey.workspace⟩]
    workspace := ((batch.handle dryRun path).run journey.workspace).state }

/-- Stops at an entry of a directory and, if it is a directory itself, goes
through it. -/
def passBy (through : Text → Journey → Journey) (directory : Text) (journey : Journey)
    (entry : Name × Node) : Journey :=
  let path := Path.join directory entry.1
  if journey.halt.isSome then journey
  else if entry.2.isDirectory then through path (batch.stopBy dryRun path journey)
  else batch.stopBy dryRun path journey

/-- Goes through a directory. -/
def travel : (levels : Nat) → (directory : Text) → Journey → Journey
  | 0, _, journey => journey
  | levels + 1, directory, journey =>
    match journey.workspace.tree.readDirectory directory with
    | .error fault => { journey with halt := some (directory, fault) }
    | .ok entries => entries.foldl (batch.passBy dryRun (travel levels) directory) journey

/-- The journey of a run. -/
def journey (options : BatchOptions) (w : Workspace) : Journey :=
  match w.tree.lookAt .target batch.root with
  | .error fault => ⟨[], w, some (batch.root, fault)⟩
  | .ok root =>
    if root.isDirectory then
      batch.travel options.dryRun (w.tree.levels options.recursive) batch.root ⟨[], w, none⟩
    else ⟨[], w, none⟩

/-- The counts of some stops. -/
def tallyOf (stops : List Waypoint) : Tally :=
  stops.foldl (fun tally stop => (batch.resultAt dryRun stop).count tally) {}

/-- An outcome that is what a journey comes to. -/
def Ends (o : Outcome Workspace Tally) (journey : Journey) : Prop :=
  o.state = journey.workspace ∧
    match journey.halt with
    | some (directory, fault) => o.result = .error (.walk directory fault)
    | none => o.result = .ok (batch.tallyOf dryRun journey.stops)

end

variable {batch : Batch} {dryRun : Bool}

/-- A journey that goes on stops at every entry. -/
theorem passBy_of_goes {through : Text → Journey → Journey} {directory : Text} {journey : Journey}
    (h : journey.halt = none) (entry : Name × Node) :
    batch.passBy dryRun through directory journey entry =
      if entry.2.isDirectory then
        through (Path.join directory entry.1)
          (batch.stopBy dryRun (Path.join directory entry.1) journey)
      else batch.stopBy dryRun (Path.join directory entry.1) journey :=
  if_neg (by simp [h])

-- ============================================================ invariants

section
variable {P : Journey → Prop} {R : Journey → Text → Prop}
  (hstop : ∀ path journey, journey.halt = none → P journey →
    P (batch.stopBy dryRun path journey) ∧
      ∀ directory, R journey directory → R (batch.stopBy dryRun path journey) directory)
  (hhalt : ∀ directory fault journey,
    journey.workspace.tree.readDirectory directory = .error fault → P journey →
      R journey directory → P { journey with halt := some (directory, fault) } ∧
        ∀ other, R journey other → R { journey with halt := some (directory, fault) } other)
  (hnext : ∀ directory entries journey entry,
    journey.workspace.tree.readDirectory directory = .ok entries → P journey →
      R journey directory → entry ∈ entries → entry.2.isDirectory = true →
        R journey (Path.join directory entry.1))
include hstop hhalt hnext

/-- Going through a directory that has been reached keeps what every stop and
every end keeps, and what has been reached stays reached. -/
theorem travel_reaches (levels : Nat) (directory : Text) {journey : Journey}
    (hgoes : journey.halt = none) (h : P journey) (hreach : R journey directory) :
    P (batch.travel dryRun levels directory journey) ∧
      ∀ other, R journey other →
        R (batch.travel dryRun levels directory journey) other := by
  induction levels generalizing directory journey with
  | zero => exact ⟨h, fun _ hother => hother⟩
  | succ levels ih =>
      rw [travel]
      split
      · next fault hlist => exact hhalt directory fault journey hlist h hreach
      · next entries hlist =>
        have hinner (entry : Name × Node) (hmem : entry ∈ entries)
            (hdirectory : entry.2.isDirectory = true) :
            R journey (Path.join directory entry.1) :=
          hnext directory entries journey entry hlist h hreach hmem hdirectory
        -- the entries one after the other, each from where the last has led
        clear hlist hgoes hreach
        induction entries generalizing journey with
        | nil => exact ⟨h, fun _ hother => hother⟩
        | cons entry entries ihe =>
            have hpass : P (batch.passBy dryRun (batch.travel dryRun levels) directory journey entry) ∧
                ∀ other, R journey other → R
                  (batch.passBy dryRun (batch.travel dryRun levels) directory journey entry) other := by
              unfold passBy
              split
              · exact ⟨h, fun _ hother => hother⟩
              · next hgoes =>
                have hgoes : journey.halt = none := by simpa using hgoes
                have hgoes' : (batch.stopBy dryRun (Path.join directory entry.1) journey).halt = none :=
                  hgoes
                obtain ⟨hstopped, hstays⟩ := hstop (Path.join directory entry.1) journey hgoes h
                split
                · next hdirectory =>
                  obtain ⟨hthrough, hstays'⟩ :=
                    ih _ hgoes' hstopped (hstays _ (hinner entry (.head _) hdirectory))
                  exact ⟨hthrough, fun other hother => hstays' other (hstays other hother)⟩
                · exact ⟨hstopped, hstays⟩
            obtain ⟨hrest, hstays⟩ := ihe hpass.1 fun other hmem hdirectory =>
              hpass.2 _ (hinner other (.tail _ hmem) hdirectory)
            exact ⟨hrest, fun other hother => hstays other (hpass.2 other hother)⟩

end

/-- What every stop keeps, and the end at a directory that cannot be listed,
going through a directory keeps. -/
theorem travel_keeps {P : Journey → Prop}
    (hstop : ∀ path journey, journey.halt = none → P journey →
      P (batch.stopBy dryRun path journey))
    (hhalt : ∀ directory fault journey,
      journey.workspace.tree.readDirectory directory = .error fault → P journey →
        P { journey with halt := some (directory, fault) })
    (levels : Nat) (directory : Text) {journey : Journey} (hgoes : journey.halt = none)
    (h : P journey) : P (batch.travel dryRun levels directory journey) :=
  -- wherever it gets to
  have hreaches := travel_reaches (R := fun _ _ => True)
    (fun path journey hgoes h => ⟨hstop path journey hgoes h, fun _ _ => trivial⟩)
    (fun directory fault journey hlist h _ => ⟨hhalt directory fault journey hlist h, fun _ _ => trivial⟩)
    (fun _ _ _ _ _ _ _ _ _ => trivial) levels directory hgoes h trivial
  hreaches.1

/-- What every stop keeps, a journey keeps. -/
theorem journey_keeps {P : Workspace → Prop} {options : BatchOptions}
    (hstop : ∀ path w, P w → P ((batch.handle options.dryRun path).run w).state)
    {w : Workspace} (h : P w) : P (batch.journey options w).workspace := by
  unfold journey
  split
  · exact h
  · split
    · exact travel_keeps (P := fun journey => P journey.workspace)
        (fun path journey _ => hstop path journey.workspace) (fun _ _ _ _ h => h) _ _ rfl h
    · exact h

/-- The directory that ends a journey cannot be listed. -/
theorem readDirectory_of_halt {options : BatchOptions} {w : Workspace} {directory : Text}
    {fault : Fault} (h : (batch.journey options w).halt = some (directory, fault)) :
    (batch.journey options w).workspace.tree.readDirectory directory = .error fault := by
  unfold journey at h ⊢
  split at h
  · -- what cannot be looked at cannot be listed either
    next fault' hlook =>
    cases h
    unfold FileTree.lookAt at hlook
    unfold FileTree.readDirectory
    split at hlook
    · next hlocate =>
      cases hlook
      rw [hlocate]
    · next hlocate =>
      cases hlook
      rw [hlocate]
    · cases hlook
  · split at h
    · next hroot =>
      rw [if_pos hroot]
      revert h
      refine travel_keeps (P := fun journey => journey.halt = some (directory, fault) →
        journey.workspace.tree.readDirectory directory = .error fault) ?_ ?_ _ _ rfl (by simp)
      · intro path journey hgoes _ hhalt
        have hnone : (batch.stopBy options.dryRun path journey).halt = none := hgoes
        rw [hnone] at hhalt
        cases hhalt
      · intro directory' fault' journey hlist _ hhalt
        cases hhalt
        exact hlist
    · cases h

-- ================================================================ the run

private theorem foldl_passBy_of_halt {through : Text → Journey → Journey} {directory : Text}
    {journey : Journey} (h : journey.halt.isSome = true) (entries : List (Name × Node)) :
    entries.foldl (batch.passBy dryRun through directory) journey = journey := by
  induction entries with
  | nil => rfl
  | cons entry entries ih =>
      have hpass : batch.passBy dryRun through directory journey entry = journey := by
        unfold passBy
        rw [if_pos h]
      rw [List.foldl_cons, hpass, ih]

/-- A stop counts what handling its path gives. -/
theorem tallyOf_stopBy (path : Text) (journey : Journey) :
    batch.tallyOf dryRun (batch.stopBy dryRun path journey).stops
      = (batch.resultAt dryRun ⟨path, journey.workspace⟩).count
          (batch.tallyOf dryRun journey.stops) := by
  rw [tallyOf, tallyOf, stopBy, List.foldl_append]
  rfl

variable (batch dryRun) in
/-- What a walk does about an entry of a directory. -/
def enter (levels : Nat) (directory : Text) (tally : Tally) (entry : Name × Node) :
    Action Workspace Tally := do
  let path := Path.join directory entry.1
  let tally ← batch.visit dryRun path tally
  if entry.2.isDirectory then batch.walk dryRun levels path tally else pure tally

private theorem walk_eq_enter (levels : Nat) (directory : Text) (tally : Tally) :
    batch.walk dryRun (levels + 1) directory tally = (do
      let entries ← entriesOf directory
      entries.foldlM (batch.enter dryRun levels directory) tally) := rfl

section
variable {levels : Nat}
  (hthrough : ∀ (directory : Text) {journey : Journey}, journey.halt = none →
    batch.Ends dryRun
      ((batch.walk dryRun levels directory (batch.tallyOf dryRun journey.stops)).run
        journey.workspace)
      (batch.travel dryRun levels directory journey))
include hthrough

/-- An entry is dealt with as its journey goes, if what is below it is. -/
private theorem ends_enter (directory : Text) (entry : Name × Node) {journey : Journey}
    (hgoes : journey.halt = none) :
    batch.Ends dryRun
      ((batch.enter dryRun levels directory (batch.tallyOf dryRun journey.stops) entry).run
        journey.workspace)
      (batch.passBy dryRun (batch.travel dryRun levels) directory journey entry) := by
  let path := Path.join directory entry.1
  have hstopped : (batch.stopBy dryRun path journey).halt = none := hgoes
  obtain ⟨events, hvisit⟩ :=
    run_visit batch dryRun path (batch.tallyOf dryRun journey.stops) journey.workspace
  rw [passBy_of_goes hgoes, enter, Action.run_bind, hvisit, Action.goOn_ok]
  split
  · have htravel := hthrough path hstopped
    rw [tallyOf_stopBy] at htravel
    exact htravel
  · rw [Ends, hstopped]
    exact ⟨rfl, congrArg Except.ok (tallyOf_stopBy path journey).symm⟩

/-- The entries of a directory are dealt with as their journey goes. -/
private theorem ends_entries (directory : Text) (entries : List (Name × Node)) {journey : Journey}
    (hgoes : journey.halt = none) :
    batch.Ends dryRun
      ((entries.foldlM (batch.enter dryRun levels directory)
        (batch.tallyOf dryRun journey.stops)).run journey.workspace)
      (entries.foldl (batch.passBy dryRun (batch.travel dryRun levels) directory) journey) := by
  induction entries generalizing journey with
  | nil =>
      rw [List.foldl_nil, Ends, hgoes]
      exact ⟨rfl, rfl⟩
  | cons entry entries ih =>
      have hfirst := ends_enter hthrough directory entry hgoes
      rw [List.foldlM_cons, List.foldl_cons, Action.run_bind]
      generalize (batch.enter dryRun levels directory _ entry).run journey.workspace = o
        at hfirst ⊢
      generalize batch.passBy dryRun _ directory journey entry = next at hfirst ⊢
      obtain ⟨result, events, w⟩ := o
      obtain ⟨stops, w', halt⟩ := next
      obtain ⟨hstate, hresult⟩ := hfirst
      obtain rfl : w = w' := hstate
      cases halt with
      | some ended =>
          obtain rfl : result = _ := hresult
          rw [foldl_passBy_of_halt rfl]
          exact ⟨rfl, rfl⟩
      | none =>
          obtain rfl : result = _ := hresult
          exact ih rfl

end

/-- A walk through a directory does what going through it does. -/
theorem ends_walk (levels : Nat) (directory : Text) {journey : Journey}
    (hgoes : journey.halt = none) :
    batch.Ends dryRun
      ((batch.walk dryRun levels directory (batch.tallyOf dryRun journey.stops)).run
        journey.workspace)
      (batch.travel dryRun levels directory journey) := by
  induction levels generalizing directory journey with
  | zero =>
      rw [walk, travel, Ends, hgoes]
      exact ⟨rfl, rfl⟩
  | succ levels ih =>
      rw [walk_eq_enter, travel, Action.run_bind, entriesOf, Action.run_bind, Action.run_get,
        Action.goOn_ok, Action.run_ofExcept]
      cases journey.workspace.tree.readDirectory directory with
      | error fault => exact ⟨rfl, rfl⟩
      | ok entries => exact ends_entries ih directory entries hgoes

/-- A run does what its journey does. -/
theorem run_journey (batch : Batch) (options : BatchOptions) (w : Workspace) :
    batch.Ends options.dryRun ((batch.run options).run w) (batch.journey options w) := by
  obtain ⟨recursive, dryRun⟩ := options
  obtain ⟨tree, source⟩ := w
  unfold journey
  by_cases hroot : tree.lookAt .target batch.root = .ok .directory
  · obtain ⟨hresult, hstate⟩ := run_of_directory hroot recursive dryRun source
    have hstart : ({ stops := [], workspace := ⟨tree, source⟩, halt := none } : Journey).halt = none :=
      rfl
    have hwalk : batch.Ends dryRun _ _ := ends_walk (tree.levels recursive) batch.root hstart
    rw [hroot]
    rw [Ends, hresult, hstate]
    exact hwalk
  · obtain ⟨hresult, hstate⟩ := run_of_not_directory hroot recursive dryRun source
    rw [Ends, hresult, hstate]
    cases hlook : tree.lookAt .target batch.root with
    | error fault => exact ⟨rfl, rfl⟩
    | ok node =>
        cases node with
        | directory => exact absurd hlook hroot
        | file content mode => exact ⟨rfl, rfl⟩
        | link target => exact ⟨rfl, rfl⟩

/-- A dry run leaves the tree alone, whatever the tree holds. -/
theorem tree_run_dry (batch : Batch) (recursive : Bool) (w : Workspace) :
    ((batch.run ⟨recursive, true⟩).run w).state.tree = w.tree := by
  rw [(run_journey batch ⟨recursive, true⟩ w).1]
  refine journey_keeps (P := fun w' => w'.tree = w.tree) ?_ rfl
  intro path w' hkept
  rw [tree_handle_dry, hkept]

-- ============================================================= the counts

/-- The counts of some stops, each told by itself. -/
theorem tallyOf_eq (stops : List Waypoint) :
    batch.tallyOf dryRun stops =
      { processed := stops.countP fun stop => (batch.resultAt dryRun stop).isProcessed
        changed := stops.countP fun stop => (batch.resultAt dryRun stop).isChanged
        failed := stops.countP fun stop => (batch.resultAt dryRun stop).isFailed } := by
  have hfold (start : Tally) :
      stops.foldl (fun tally stop => (batch.resultAt dryRun stop).count tally) start =
        { processed := start.processed +
            stops.countP fun stop => (batch.resultAt dryRun stop).isProcessed
          changed := start.changed +
            stops.countP fun stop => (batch.resultAt dryRun stop).isChanged
          failed := start.failed +
            stops.countP fun stop => (batch.resultAt dryRun stop).isFailed } := by
    induction stops generalizing start with
    | nil => rfl
    | cons stop stops ih =>
        rw [List.foldl_cons, ih, Handled.count_eq]
        simp only [List.countP_cons]
        congr 1 <;> omega
  rw [tallyOf, hfold]
  simp only [Nat.zero_add]

end Batch

end TaggedSource
